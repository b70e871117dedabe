import Rdns.Server.Contacts
import Rdns.Server.UpdateRuns
import Rdns.Server.ReloadRuns
import Rdns.Catalogs.Ownership
import Rdns.Resolver.CachedAnswers
import Rdns.Resolver.CacheLifetimes
import Rdns.Resolver.DenialOrigin
import Rdns.Server.ParentalGate
import Rdns.Server.QuestionZone
import Rdns.Policy.ListedAddresses
import Rdns.Policy.NameserverReload
import Rdns.Core.RdataArena
import Rdns.Resolver.DotRuns
import Rdns.Answer.Shortcuts
import Rdns.Core.Rewinding
import Rdns.Core.Padding
import Rdns.Zones.SignedReadBack
import Rdns.Core.HostileNames
import Rdns.Transfer.AnswerLinks
import Rdns.Zones.ChainFiling
import Rdns.Core.Truncation
import Rdns.Dnssec.SignatureVerdicts
import Rdns.Dnssec.AnchorBootstrap
import Rdns.Catalogs.SidecarRows
import Rdns.Dnssec.CanonicalSets
import Rdns.Catalogs.ReplicaFiles
import Rdns.Answer.AliasChains
import Rdns.Zones.Prerequisites
import Rdns.Transfer.UpdateSerial
import Rdns.Dnssec.RrsetTtls
import Rdns.Resolver.WildcardContents
import Rdns.Policy.AddressIndex
import Rdns.Resolver.SpecialNames
import Rdns.Catalogs.RecordSet
import Rdns.Resolver.AnchorRechecks
import Rdns.Resolver.Exemptions
import Rdns.Present.CalendarText
import Rdns.Present.TypeBitmaps
import Rdns.Resolver.CacheBounds
import Rdns.Server.ResponseLimiter
import Rdns.Auth.BadTime
import Rdns.Resolver.DotFraming
import Rdns.Server.Restarts
