import Floodgate.Blacklist
import Floodgate.Clock
import Floodgate.Config
import Floodgate.Config.Settings
import Floodgate.Config.Validity
import Floodgate.Counter
import Floodgate.Decimal
import Floodgate.Document
import Floodgate.Double
import Floodgate.Double.Text
import Floodgate.Fault
import Floodgate.FloodWatch
import Floodgate.Gate
import Floodgate.Journal
import Floodgate.Keyed
import Floodgate.Main
import Floodgate.Metrics
import Floodgate.Node
import Floodgate.Peer
import Floodgate.Power
import Floodgate.Proofs.Cache.Denial
import Floodgate.Proofs.Cache.History
import Floodgate.Proofs.Cache.Lease
import Floodgate.Proofs.Clock.Periods
import Floodgate.Proofs.Clock.Rounds
import Floodgate.Proofs.Clock.Stops
import Floodgate.Proofs.Clock.Ticks
import Floodgate.Proofs.Config.Reload
import Floodgate.Proofs.Config.Saved
import Floodgate.Proofs.Config.Sections
import Floodgate.Proofs.Decimal
import Floodgate.Proofs.Double.Rounding
import Floodgate.Proofs.Double.Share
import Floodgate.Proofs.Double.Shortest
import Floodgate.Proofs.Gate.Arrival
import Floodgate.Proofs.Gate.Excess
import Floodgate.Proofs.Gate.FirstBan
import Floodgate.Proofs.Gate.FirstRefusal
import Floodgate.Proofs.Gate.Pass
import Floodgate.Proofs.Gate.Post
import Floodgate.Proofs.Gate.Published
import Floodgate.Proofs.Gate.Sentence
import Floodgate.Proofs.Gate.ServedBan
import Floodgate.Proofs.Journal.Summary
import Floodgate.Proofs.Station.AnyOrder
import Floodgate.Proofs.Station.BanHolds
import Floodgate.Proofs.Station.BanLifted
import Floodgate.Proofs.Station.Build
import Floodgate.Proofs.Station.DenialEnds
import Floodgate.Proofs.Station.Incident
import Floodgate.Proofs.Station.Maintenance
import Floodgate.Proofs.Station.Observation
import Floodgate.Proofs.Station.Operation
import Floodgate.Proofs.Station.QuotaPath
import Floodgate.Proofs.Station.Rate
import Floodgate.Proofs.Station.Rounds
import Floodgate.Proofs.Station.SweepRound
import Floodgate.Proofs.Station.Terms
import Floodgate.Proofs.Station.Validation
import Floodgate.Proofs.Tier.Allowance
import Floodgate.Proofs.Tier.Budget
import Floodgate.Proofs.Tier.Census
import Floodgate.Proofs.Tier.Earning
import Floodgate.Proofs.Tier.Exact
import Floodgate.Proofs.Tier.Generous
import Floodgate.Proofs.Tier.Pruning
import Floodgate.Proofs.Tier.Rate
import Floodgate.Proofs.Tier.Refusal
import Floodgate.Proofs.Tier.Reserve
import Floodgate.Proofs.Tier.Safety
import Floodgate.Proofs.Tier.Steady
import Floodgate.Proofs.Tier.Transcript
import Floodgate.Proofs.Tier.Window
import Floodgate.Proofs.Toml.Fits
import Floodgate.Proofs.Toml.Fraction
import Floodgate.Proofs.Toml.Lines
import Floodgate.Proofs.Toml.Numeral
import Floodgate.Proofs.Toml.Quoted
import Floodgate.Proofs.Toml.Sections
import Floodgate.Proofs.Topics.Account
import Floodgate.Proofs.Topics.Load
import Floodgate.Proofs.Topics.OneByOne
import Floodgate.Proofs.Watch.Alike
import Floodgate.Proofs.Watch.Chronicle
import Floodgate.Proofs.Watch.Criterion
import Floodgate.Proofs.Watch.Records
import Floodgate.Proofs.Watch.Streak
import Floodgate.Schedule
import Floodgate.Speed
import Floodgate.Station
import Floodgate.Tier
import Floodgate.TimeCache
import Floodgate.Toml.Number
import Floodgate.Toml.Quoted
import Floodgate.Toml.Reader
import Floodgate.Toml.Statement
import Floodgate.Toml.Text
import Floodgate.Toml.Writer
import Floodgate.Topics
