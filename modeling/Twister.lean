import Twister.Lib.OrdMap
import Twister.Lib.Enumeration
import Twister.Bencode.Entry
import Twister.Bencode.Decode
import Twister.Bencode.Lazy
import Twister.Dht.Expire
import Twister.Dht.Message
import Twister.Dht.Storage
import Twister.SoftCheckpoint
import Twister.DhtProxy
import Twister.Rpc.Json
import Twister.Dht.Get
import Twister.Chain.Script
import Twister.Chain.Block
import Twister.Chain.NameTree
import Twister.Chain.TxIndex
import Twister.Chain.Connect
import Twister.Chain.Registry
import Twister.Torrent.PiecePicker
import Twister.Posts.DirectMsg
import Twister.Rpc.Usernames
import Twister.Posts.Hashtags
import Twister.Posts.Search
import Twister.Dht.Refresh
import Twister.Serialize
import Twister.Util.MruSet
import Twister.Util.LimitedMap
import Twister.Lib.MerkleTree
import Twister.Chain.Merkle
import Twister.Chain.PartialMerkle
import Twister.Uint256
import Twister.Base58
import Twister.Util.Utf8
import Twister.Posts.Accept
import Twister.Posts.Timeline
import Twister.Lib.BackIndex
import Twister.Lib.Buckets
import Twister.Net.AddrMan
import Twister.Net.AddrManInv
import Twister.Net.AddrManAdd
import Twister.Net.AddrManTried
import Twister.Net.AddrManRun
import Twister.Net.AddrManCheck
import Twister.Net.AddrManReach
import Twister.Net.AddrManSer
import Twister.Net.AddrManLoad
import Twister.Net.AddrManRoundTrip
