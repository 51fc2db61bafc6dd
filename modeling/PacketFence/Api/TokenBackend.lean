import Mathlib.Logic.Function.Basic

/-!
# The in-memory token backend

Tokens are kept in a cache whose entries expire a fixed time after they were
last set. The absolute limit on the life of a token is not kept by the cache
but checked against the creation time inside the stored value. Times are
nanoseconds; every call reads the clock once.
-/

namespace PacketFence.Api

abbrev Time := Int

abbrev Token := String

def AccessAllTenants : Int64 := 0

def AccessNoTenants : Int64 := -1

/-- What the authorization reads of a `TokenInfo`; the roles are listed in the
order in which the map is walked. -/
structure TokenInfo where
  adminRoles : List String
  tenantId : Int64
  username : String
  createdAt : Time

structure Item where
  info : TokenInfo
  expiration : Time

structure MemTokenBackend where
  store : Token → Option Item
  expiration : Time
  maxExpiration : Time
  expiration_pos : 0 < expiration
  maxExpiration_pos : 0 < maxExpiration

namespace MemTokenBackend

def newMemTokenBackend (expiration maxExpiration : Time) (expires : 0 < expiration)
    (ends : 0 < maxExpiration) : MemTokenBackend where
  store := fun _ => none
  expiration := expiration
  maxExpiration := maxExpiration
  expiration_pos := expires
  maxExpiration_pos := ends

variable (backend : MemTokenBackend) (now : Time) (token : Token)

/-- `GetWithExpiration`: an entry is found up to its expiration. -/
def getWithExpiration : Option Item :=
  (backend.store token).filter fun item => now ≤ item.expiration

def setDefault (info : TokenInfo) : MemTokenBackend :=
  { backend with
    store := Function.update backend.store token
      (some ⟨info, now + backend.expiration⟩) }

/-- The cleanup of the cache, which runs every ten minutes. -/
def deleteExpired : MemTokenBackend :=
  { backend with store := fun token => backend.getWithExpiration now token }

def tokenIsValid : Bool :=
  (backend.getWithExpiration now token).isSome

/-- The information with the time it expires at; `time.Unix(0, 0)` is 0. -/
def tokenInfoForToken : Option TokenInfo × Time :=
  match backend.getWithExpiration now token with
  | some item =>
    if backend.maxExpiration < now - item.info.createdAt then
      (none, 0)
    else if item.info.createdAt + backend.maxExpiration < item.expiration then
      (some item.info, item.info.createdAt + backend.maxExpiration)
    else
      (some item.info, item.expiration)
  | none => (none, 0)

def storeTokenInfo (info : TokenInfo) : MemTokenBackend :=
  backend.setDefault now token { info with createdAt := now }

def touchTokenInfo : MemTokenBackend :=
  match (backend.tokenInfoForToken now token).1 with
  | some info => backend.setDefault now token info
  | none => backend

/-- The part of `HandleAAA` that looks at the token: it is authenticated,
touched, and its information is fetched again for the authorization. -/
def handleToken : MemTokenBackend × Option TokenInfo :=
  if backend.tokenIsValid now token then
    let touched := backend.touchTokenInfo now token
    (touched, (touched.tokenInfoForToken now token).1)
  else
    (backend, none)

end MemTokenBackend

end PacketFence.Api
