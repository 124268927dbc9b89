import Authlib.GoValues
import Authlib.Cache
import Authlib.Controller
import Authlib.GobCodec
import Authlib.LegacyClient
import Authlib.PermissionCache
import Authlib.ClientConstruction
import Authlib.KeyRetriever
import Authlib.KeyFlight
import Authlib.Verifier
import Authlib.OutgoingContext
import Authlib.KeyProgress
import Authlib.CachedPermissions
