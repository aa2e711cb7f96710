import Frelay.Lib.Lts
import Frelay.Lib.Framing
import Frelay.Message.Codec
import Frelay.Message.Wire
import Frelay.Prng
import Frelay.Userdb.FreshIds
import Frelay.Server.Effect
import Frelay.Server.Relay
import Frelay.Server.Requests
import Frelay.Server.Reuse
import Frelay.Server.Upkeep
import Frelay.Server.Pass
import Frelay.Server.Frames
import Frelay.Server.Motd
import Frelay.Server.Strings
import Frelay.Server.LoginNames
import Frelay.Server.Logout
import Frelay.Client.Io
import Frelay.Client.Table
import Frelay.Client.Effect
import Frelay.Client.Downloads
import Frelay.Client.PartFile
import Frelay.Client.Finish
import Frelay.Client.Sizes
import Frelay.Client.Names
import Frelay.Client.Serve
import Frelay.Client.Defaults
import Frelay.Client.Accepted
import Frelay.Client.Exchange
import Frelay.Client.Delivery
import Frelay.Client.Streams
import Frelay.Client.Reads
import Frelay.Client.Pending
import Frelay.Client.Resume
import Frelay.Client.Strtoi
import Frelay.Client.Clobber
import Frelay.Client.Directory
import Frelay.Client.Rejected
import Frelay.Client.Stops
import Frelay.Config.RoundTrip
import Frelay.Session.Agreement
import Frelay.Network.Survival
import Frelay.Assembly
import Frelay.Client.Gui
