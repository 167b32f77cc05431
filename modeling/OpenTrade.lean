import OpenTrade.Json.Value
import OpenTrade.Json.Parse
import OpenTrade.Json.WellFormed
import OpenTrade.Json.RoundTrip
import OpenTrade.Engines
import OpenTrade.Connection.State
import OpenTrade.Connection.Kept
import OpenTrade.Connection.MarketData
import OpenTrade.Connection.Params
import OpenTrade.Connection.Send
import OpenTrade.Connection.Handlers
import OpenTrade.Connection.OnMessage
import OpenTrade.Connection.Events
import OpenTrade.Props.Gate
import OpenTrade.Props.Subscriptions
import OpenTrade.Props.AlgoFiles
import OpenTrade.Props.AlgoOwnership
import OpenTrade.Props.Footprint
import OpenTrade.Props.NonInterference
import OpenTrade.Props.ErrorReplies
import OpenTrade.Props.MarketDataView
import OpenTrade.Props.MarketDataSync
import OpenTrade.Props.LoginBinding
import OpenTrade.Props.ClientView
import OpenTrade.Props.Publisher
import OpenTrade.Props.ParamEncoding
import OpenTrade.Props.Shutdown
import OpenTrade.Props.Orders
import OpenTrade.Props.Authentication
import OpenTrade.Props.RefCounts
import OpenTrade.Props.Pushes
import OpenTrade.Props.EngineCalls
