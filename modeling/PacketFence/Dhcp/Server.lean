import PacketFence.Dhcp.Pool
import PacketFence.Foundations.Machine

/-!
# `ServeDHCP` as interleaved calls

A call of `ServeDHCP` is cut into atomic steps, one for each use of the
hardware cache or of the pool; a `Point` names the next use together with the
local variables that are still needed. Any number of calls run at once, next
to the goroutines they leave behind: the `OnEvicted` callback of a cache entry
that was deleted or expired, and the timer that puts an unusable address back.
What the code cannot decide itself (probe results, the filter engine, the
transaction caches, the random pick) comes with the event.
-/

namespace PacketFence.Dhcp

open Foundations Function

/-- The part of `DHCPHandler` that does not change while it serves. -/
structure DHCPHandler where
  start : UInt32
  leaseRange : Nat
  layer2 : Bool
  ipAssigned : Mac → Option Nat

inductive Answer where
  | offer (index : Nat)
  | ack (index : Nat)
  | nak
  deriving DecidableEq

/-- A message with the addresses `ServeDHCP` reads from it: option 50 of a
DISCOVER, and for the others option 50 or else the client address. -/
inductive Message where
  | discover (requested : Option UInt32)
  | request (reqIP : UInt32)
  | release (reqIP : UInt32)
  | decline (reqIP : UInt32)

/-- The next atomic step of a call. -/
inductive Point where
  -- DISCOVER, with the cached lease
  | search (requested : Option UInt32)
  | checkCached (requested : Option UInt32) (cached : Nat)
  | dropCached (requested : Option UInt32) (cached : Nat)
  | reserveCached (requested : Option UInt32) (cached : Nat)
  | extendCached (free : Nat)
  -- DISCOVER, from the `retry` label on; `none` is the source's `free == -1`
  | retry (requested : Option UInt32) (firstTry : Bool) (free : Option Nat)
  | checkRequested (ip : UInt32) (free : Option Nat)
  | reserveRequested (ip : UInt32) (free : Option Nat)
  | pick (requested : Option UInt32)
  | lock (requested : Option UInt32) (free : Nat)
  | probe (requested : Option UInt32) (free : Nat)
  | unlock (requested : Option UInt32) (free : Nat)
  | quarantine (requested : Option UInt32) (free : Nat)
  | relock (free : Nat)
  | reply (free : Nat)
  -- REQUEST
  | lookup (reqIP : UInt32)
  | transact (index : Nat)
  | grant (index : Nat)
  | record (index : Nat)
  | confirm (index : Nat)
  | wrongIP
  | dropWrong
  -- RELEASE and DECLINE
  | find (leaseNum : Nat)
  | checkHolder (leaseNum : Nat)
  | forget (leaseNum : Nat)
  | giveBack (leaseNum : Nat)
  | setAside (leaseNum : Nat)
  deriving DecidableEq

structure Call where
  mac : Mac
  point : Point
  deriving DecidableEq

inductive Next where
  | goto (point : Point)
  | answer (answer : Answer)
  | silent

structure Environment where
  available : Nat := 0
  arp : Mac := ""
  pingreply : Bool := false
  reject : Bool := false
  /-- the transaction cache says that this REQUEST was already answered -/
  processed : Bool := false
  /-- what the `xid` cache holds for the transaction -/
  xid : Option Nat := none

structure Server where
  pool : DHCPPool
  hwcache : Mac → Option Nat
  calls : Nat → Option Call
  /-- indices whose `OnEvicted` goroutine has not run yet -/
  evictions : List Nat
  timers : List Nat
  lastAnswer : Mac → Option Answer
  clock : Int

namespace Server

def initial (pool : DHCPPool) (clock : Int) : Server where
  pool := pool
  hwcache := fun _ => none
  calls := fun _ => none
  evictions := []
  timers := []
  lastAnswer := fun _ => none
  clock := clock

/-- `hwcache.Set`, and `Replace` where the key is present. -/
def cacheSet (server : Server) (mac : Mac) (index : Nat) : Server :=
  { server with hwcache := update server.hwcache mac (some index) }

/-- `hwcache.Delete`, and the expiry of an entry: `OnEvicted` is called with
the evicted index, and its goroutine runs later. -/
def cacheDelete (server : Server) (mac : Mac) : Server :=
  match server.hwcache mac with
  | none => server
  | some index =>
    { server with
      hwcache := update server.hwcache mac none
      evictions := index :: server.evictions }

/-- `FreeIPIndex`, of which no caller reads the error. -/
def freeIPIndex (server : Server) (index : Nat) : Server :=
  { server with pool := (server.pool.freeIPIndex server.clock index).1 }

end Server

/-- The one use of the cache or of the pool that a step makes and that may
change something. `reserve` stands for `ReserveIPIndex`, `take` for
`GetFreeIPIndex`, `free` for `FreeIPIndex`; `setAside` reserves the index for
`FakeMac` and starts the goroutine that frees it later. -/
inductive Effect where
  | read
  | cacheSet (index : Nat)
  | cacheDelete
  | reserve (index : Nat)
  | take (index : Nat)
  | free (index : Nat)
  | setAside (index : Nat)

def Effect.apply (server : Server) (mac : Mac) : Effect → Server
  | .read => server
  | .cacheSet index => server.cacheSet mac index
  | .cacheDelete => server.cacheDelete mac
  | .reserve index =>
    { server with pool := (server.pool.reserveIPIndex index mac).1 }
  | .take index =>
    if pickable : server.pool.Pickable index then
      { server with pool := (server.pool.getFreeIPIndex index mac pickable).1 }
    else
      server
  | .free index => server.freeIPIndex index
  | .setAside index =>
    { server with
      pool := (server.pool.reserveIPIndex index FakeMac).1
      timers := index :: server.timers }

/-- The address is in the ARP cache of a layer 2 network under another MAC. -/
def inarp (handler : DHCPHandler) (environment : Environment) (mac : Mac) : Bool :=
  handler.layer2 && environment.arp != "" && environment.arp != FreeMac &&
    mac != environment.arp

def conflict (handler : DHCPHandler) (environment : Environment) (mac : Mac) : Bool :=
  environment.pingreply || inarp handler environment mac

def begin (handler : DHCPHandler) (mac : Mac) : Message → Next
  | .discover requested =>
    match handler.ipAssigned mac with
    | some position => .goto (.reply position)
    | none => .goto (.search requested)
  | .request reqIP =>
    let leaseNum := (reqIP - handler.start).toNat
    if reqIP = 0 then
      .answer .nak
    else if leaseNum < handler.leaseRange then
      match handler.ipAssigned mac with
      | some position =>
        if position = leaseNum then .goto (.grant position) else .answer .nak
      | none => .goto (.lookup reqIP)
    else
      .answer .nak
  | .release reqIP | .decline reqIP =>
    let leaseNum := (reqIP - handler.start).toNat
    if leaseNum < handler.leaseRange ∧ handler.ipAssigned mac ≠ some leaseNum then
      .goto (.find leaseNum)
    else
      .silent

/-- One atomic step of a call for `mac`. An impossible pick is refused. -/
def advance? (handler : DHCPHandler) (environment : Environment)
    (server : Server) (mac : Mac) : Point → Option (Effect × Next)
  | .search requested =>
    match server.hwcache mac with
    | some cached => some (.read, .goto (.checkCached requested cached))
    | none => some (.read, .goto (.retry requested true none))
  | .checkCached requested cached =>
    let returnedMac := (server.pool.getMACIndex cached).2.1
    if returnedMac = mac then
      some (.read, .goto (.extendCached cached))
    else if returnedMac = FreeMac then
      some (.read, .goto (.dropCached requested cached))
    else
      some (.read, .goto (.retry requested true none))
  | .dropCached requested cached =>
    some (.cacheDelete, .goto (.reserveCached requested cached))
  | .reserveCached requested cached =>
    let result := server.pool.reserveIPIndex cached mac
    if result.2.2 = none ∧ result.2.1 = mac then
      some (.reserve cached, .goto (.extendCached cached))
    else
      some (.reserve cached, .goto (.retry requested true none))
  | .extendCached free =>
    match server.hwcache mac with
    | some _ => some (.cacheSet free, .goto (.reply free))
    | none => some (.read, .silent)
  | .retry requested firstTry free =>
    if 0 < server.pool.freeIPsRemaining then
      match requested, firstTry, free with
      | some ip, true, free => some (.read, .goto (.checkRequested ip free))
      | requested, _, none => some (.read, .goto (.pick requested))
      | requested, _, some free => some (.read, .goto (.lock requested free))
    else
      some (.read, .silent)
  | .checkRequested ip free =>
    let element := (ip - handler.start).toNat
    let result := server.pool.getMACIndex element
    if result.2.2 = none ∧ result.2.1 = mac then
      some (.read, .goto (.lock (some ip) element))
    else if result.2.2 = none ∧ result.2.1 = FreeMac then
      some (.read, .goto (.reserveRequested ip free))
    else
      some (.read, .goto (.retry (some ip) false free))
  | .reserveRequested ip free =>
    let element := (ip - handler.start).toNat
    if (server.pool.reserveIPIndex element mac).2.2 = none then
      some (.reserve element, .goto (.lock (some ip) element))
    else
      some (.reserve element, .goto (.retry (some ip) false free))
  | .pick requested =>
    if pickable : server.pool.Pickable environment.available then
      let result := server.pool.getFreeIPIndex environment.available mac pickable
      if result.2.2.2 = none then
        some (.take environment.available, .goto (.lock requested result.2.1))
      else
        some (.take environment.available, .silent)
    else
      none
  | .lock requested free => some (.cacheSet free, .goto (.probe requested free))
  | .probe requested free =>
    if conflict handler environment mac then
      some (.read, .goto (.unlock requested free))
    else
      some (.read, .goto (.relock free))
  | .unlock requested free =>
    some (.cacheDelete, .goto (.quarantine requested free))
  | .quarantine requested free =>
    -- the source goes on with `free = 0`, not with `free = -1`
    some (.setAside free, .goto (.retry requested false (some 0)))
  | .relock free => some (.cacheSet free, .goto (.reply free))
  | .reply free =>
    if environment.reject then
      some (.read, .answer .nak)
    else
      some (.read, .answer (.offer free))
  | .lookup reqIP =>
    match server.hwcache mac with
    | none => some (.read, .silent)
    | some index =>
      if handler.start + UInt32.ofNat index = reqIP then
        some (.read, .goto (.transact index))
      else
        some (.read, .goto .wrongIP)
  | .transact index =>
    if environment.processed then
      some (.read, .silent)
    else
      some (.read, .goto (.grant index))
  | .grant index =>
    if environment.reject then
      some (.read, .answer .nak)
    else
      some (.read, .goto (.record index))
  | .record index => some (.cacheSet index, .goto (.confirm index))
  | .confirm index => some (.reserve index, .answer (.ack index))
  | .wrongIP =>
    if environment.xid = some 1 then
      some (.read, .goto .dropWrong)
    else
      some (.read, .answer .nak)
  | .dropWrong => some (.cacheDelete, .answer .nak)
  | .find leaseNum =>
    if server.hwcache mac = some leaseNum then
      some (.read, .goto (.checkHolder leaseNum))
    else
      some (.read, .silent)
  | .checkHolder leaseNum =>
    if (server.pool.getMACIndex leaseNum).2.1 = mac then
      some (.read, .goto (.forget leaseNum))
    else
      some (.read, .silent)
  | .forget leaseNum => some (.cacheDelete, .goto (.giveBack leaseNum))
  | .giveBack leaseNum => some (.free leaseNum, .goto (.setAside leaseNum))
  | .setAside leaseNum => some (.setAside leaseNum, .silent)

/-- Everything that can happen next. Goroutines are named by their position
in the list of those that have not run. -/
inductive Event where
  | receive (id : Nat) (mac : Mac) (message : Message)
  | advance (id : Nat) (environment : Environment)
  | expire (mac : Mac)
  | evicted (position : Nat)
  | timer (position : Nat)
  | tick (elapsed : Nat)

namespace Server

/-- Continue or end call `id` of `mac`; an answer is remembered for the client. -/
def proceed (server : Server) (id : Nat) (mac : Mac) : Next → Server
  | .goto point =>
    { server with calls := update server.calls id (some ⟨mac, point⟩) }
  | .answer answer =>
    { server with
      calls := update server.calls id none
      lastAnswer := update server.lastAnswer mac (some answer) }
  | .silent => { server with calls := update server.calls id none }

def step? (handler : DHCPHandler) (server : Server) : Event → Option Server
  | .receive id mac message =>
    match server.calls id with
    | some _ => none
    | none => some (server.proceed id mac (begin handler mac message))
  | .advance id environment =>
    match server.calls id with
    | none => none
    | some call =>
      (advance? handler environment server call.mac call.point).map
        fun result =>
          (result.1.apply server call.mac).proceed id call.mac result.2
  | .expire mac =>
    match server.hwcache mac with
    | none => none
    | some _ => some (server.cacheDelete mac)
  | .evicted position =>
    match server.evictions[position]? with
    | none => none
    | some index =>
      some { server.freeIPIndex index with
        evictions := server.evictions.eraseIdx position }
  | .timer position =>
    match server.timers[position]? with
    | none => none
    | some index =>
      some { server.freeIPIndex index with
        timers := server.timers.eraseIdx position }
  | .tick elapsed => some { server with clock := server.clock + elapsed }

end Server

def machine (handler : DHCPHandler) : Machine Server Event where
  step? := Server.step? handler

namespace Scenario

def handler : DHCPHandler where
  start := 0x0a000001
  leaseRange := 3
  layer2 := false
  ipAssigned := fun _ => none

def start : Server := .initial (DHCPPool.newDHCPPool 3 1 fun _ => 0) 0

def alice : Mac := "02:00:00:00:00:0a"

def bob : Mac := "02:00:00:00:00:0b"

def lease (id : Nat) (mac : Mac) (index : Nat) : List Event :=
  [.receive id mac (.discover none), .advance id {}, .advance id {},
    .advance id { available := index }, .advance id {}, .advance id {},
    .advance id {}, .advance id {},
    .receive id mac (.request (handler.start + UInt32.ofNat index)),
    .advance id {}, .advance id {}, .advance id {}, .advance id {},
    .advance id {}]

def leaseOf (server : Server) (mac : Mac) : Option Answer × Option Nat :=
  (server.lastAnswer mac, server.hwcache mac)

end Scenario

end PacketFence.Dhcp
