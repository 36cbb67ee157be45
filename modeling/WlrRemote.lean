import WlrRemote.Octets
import WlrRemote.SuffixTable
import WlrRemote.Descriptors
import WlrRemote.Runs
import WlrRemote.Common
import WlrRemote.VirtualPointer
import WlrRemote.Network
import WlrRemote.MdnsString
import WlrRemote.MdnsRecord
import WlrRemote.MdnsListen
import WlrRemote.Advertise
import WlrRemote.MainLoop
import WlrRemote.PointerRequests
import WlrRemote.TestClient
import WlrRemote.Displacement
import WlrRemote.Draining
import WlrRemote.Flushing
import WlrRemote.Signals
import WlrRemote.Setup
import WlrRemote.Password
import WlrRemote.UdpSockets
import WlrRemote.Registry
import WlrRemote.Interfaces
import WlrRemote.MessageRoom
import WlrRemote.BuiltService
import WlrRemote.MessageConfined
import WlrRemote.Ownership
import WlrRemote.AdvertisedAddresses
import WlrRemote.Responders
import WlrRemote.QuestionsHanded
import WlrRemote.NameLayout
import WlrRemote.NameWriting
import WlrRemote.NameEnds
import WlrRemote.NameReading
import WlrRemote.MessageText
import WlrRemote.TxtRecords
import WlrRemote.Goodbye
import WlrRemote.CacheFlush
import WlrRemote.MessageDecoding
import WlrRemote.SelfReference
import WlrRemote.ServiceNames
import WlrRemote.LabelLimits
import WlrRemote.MessageRoundTrip
import WlrRemote.StaleFields
import WlrRemote.LetterCase
import WlrRemote.MdnsQuery
import WlrRemote.QueryRoundTrip
import WlrRemote.ServiceLife
import WlrRemote.MainLife
import WlrRemote.MainLeaves
import WlrRemote.MainServes
import WlrRemote.Ports
import WlrRemote.ReadsBounded
import WlrRemote.AnswersGiven
import WlrRemote.NamesRead
import WlrRemote.QuietRuns
import WlrRemote.AnswerStorm
import WlrRemote.TxtReading
import WlrRemote.EntriesTold
import WlrRemote.RecordsSaid
import WlrRemote.AnswersHeard
import WlrRemote.RepliesAlone
import WlrRemote.Rendezvous
import WlrRemote.TypeDiscovered
import WlrRemote.Caches
import WlrRemote.CachesFollow
import WlrRemote.LastWord
import WlrRemote.TestClientMain
import WlrRemote.ClientLife
