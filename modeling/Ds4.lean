import Ds4.Lib.Growing
import Ds4.Lib.Scan
import Ds4.Kvstore.Budget
import Ds4.Dspark.Rewind
import Ds4.Engram.Window
import Ds4.Snapstore.Weights
import Ds4.Kvstore.RoundTrip
import Ds4.Kvstore.Load
import Ds4.Server.ToolRuns
import Ds4.Server.Arguments
import Ds4.Server.CallRoundTrip
import Ds4.Server.ResponsesFeed
import Ds4.Server.DispatchRuns
import Ds4.Server.DecodeRuns
import Ds4.Gguf.Safety
import Ds4.Tokenizer.Split
import Ds4.Tokenizer.Rendered
import Ds4.Sampler.Agreement
import Ds4.Sampler.Keyed
import Ds4.Sampler.Probabilities
import Ds4.Dspark.Exact
import Ds4.Dspark.PointMass
import Ds4.Dist.RoutePlan
import Ds4.Dist.ForwarderRuns
import Ds4.Dist.PayloadLoads
import Ds4.Dist.PrefillEnds
import Ds4.Kvstore.Continued
import Ds4.Placement.LayerPack
import Ds4.Engram.BatchRuns
import Ds4.Server.Utf8Hold
import Ds4.Server.ToolStream
import Ds4.Server.Tracker
import Ds4.Server.TrackerRuns
import Ds4.Sampler.ScanLanes
import Ds4.Server.JsonUtf8
import Ds4.Server.ImageCacheRuns
import Ds4.Agent.EditRuns
import Ds4.Agent.ReadRuns
import Ds4.Tp.CommandRuns
import Ds4.Dspark.Admission
