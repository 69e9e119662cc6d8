import RoutePattern.Route.Cache

/-!
Sessions: what is asked of a cache of routes one after the other, while time goes by. Every route
that is made gets a number of its own, by which it is known again.
-/

namespace RoutePattern

structure NumberedRoute where
  number : Nat
  route : Route

/-- A cache, another one beside it, how many times each of them was replaced, the time, what it costs
to make a route and how long it takes, the number of the next route, the numbers of the routes that
were handed out, and what was noted. Where the lifetime that was asked for is no time, looking at an
entry's age fails. -/
structure CacheSession (τ : Type) where
  cache : Cache RouteKey NumberedRoute τ
  renewals : Nat
  other : Cache RouteKey NumberedRoute τ
  otherRenewals : Nat
  now : τ
  cost : τ
  delay : τ
  next : Nat
  handedOut : List Nat
  records : List Log.Record
  ageable : Except Refusal Unit

/-- What is asked of a cache of routes. A route that is put into it is a new one, unless it has a
place among the routes that are shared. -/
inductive CacheRequest (τ : Type) where
  | get (key : RouteKey)
  | getOrMake (key : RouteKey)
  | make (key : RouteKey)
  | put (key : RouteKey) (route : Route) (shared : Option Nat) (cost : τ)
  | invalidate (pattern : Option Text) (atEnd : Option Bool)
  | resetStats
  | renew (capacity : Int)
  | wait (time : τ)
  | look (view : CacheSession τ → Value)
  | expired (key : RouteKey) (lifetime : Except Refusal (Option τ))
  | disabled (requests : List (CacheRequest τ))
  | elsewhere (request : CacheRequest τ)

/-- An answer. A route that is found has its place among those that were handed out. That of a block
has every answer within it, with the session after it. -/
inductive CacheReply (τ : Type) where
  | value (v : Value)
  | found (route : Option NumberedRoute)
  | failed (error : PreparationError)
  | block (replies : List (CacheReply τ × CacheSession τ))

namespace Route

/-- The routes that every part of a program shares. -/
def shared : List Route := [unnamed, separator, home]

end Route

namespace CacheSession

variable {τ : Type}

def lifetimeOf : Value → Except Refusal (Option Float)
  | .null => .ok none
  | v =>
    match v.bound? with
    | some x => .ok (some x)
    | none =>
      .error (.raised .badType
        ("'>' not supported between instances of 'float' and '" ++ v.qualifiedKind ++ "'"))

/-- A session before its first request, in which a route is made in no time. The numbers below that of
its first route are those of the shared routes. -/
def start [OfNat τ 0] (cache : Cache RouteKey NumberedRoute τ) (now cost : τ) : CacheSession τ :=
  ⟨cache, 0, .empty 1000 none true, 0, now, cost, 0, Route.shared.length, [], [], .ok ()⟩

def withCache (c : Cache RouteKey NumberedRoute τ) (s : CacheSession τ) : CacheSession τ :=
  { s with cache := c }

/-- The session with its two caches in each other's place. -/
def swapped (s : CacheSession τ) : CacheSession τ :=
  { s with cache := s.other, renewals := s.otherRenewals,
           other := s.cache, otherRenewals := s.renewals }

def renewed [OfNat τ 0] (capacity : Int) (s : CacheSession τ) : CacheSession τ :=
  { s with cache := .empty capacity none true, renewals := s.renewals + 1 }

def counted (s : CacheSession τ) : CacheSession τ := { s with next := s.next + 1 }

def prepared [Add τ] (key : RouteKey) (s : CacheSession τ) : CacheSession τ :=
  { s.counted with
    now := s.now + s.delay
    records := s.records ++ Route.preparationRecords key }

def handOut (item : NumberedRoute) (s : CacheSession τ) : CacheReply τ × CacheSession τ :=
  let known :=
    if s.handedOut.contains item.number then s.handedOut else s.handedOut ++ [item.number]
  (.found (some ⟨known.idxOf item.number, item.route⟩), { s with handedOut := known })

def holds [Sub τ] [LT τ] [DecidableLT τ] (key : RouteKey) (s : CacheSession τ) : Bool :=
  (s.cache.get s.now key).1.isSome

def fetch [Add τ] [Sub τ] [LT τ] [DecidableLT τ] (key : RouteKey) (s : CacheSession τ) :
    CacheReply τ × CacheSession τ :=
  let (found, after) :=
    s.cache.getOrMake s.now (s.now + s.delay) s.cost key
      ((Route.prepared key).map fun r => ⟨s.next, r⟩)
  let s := (if s.holds key then s else s.prepared key).withCache after
  match found with
  | .ok item => s.handOut item
  | .error e => (.failed e, s)

/-- Does something that looks at the age of the entry of a key, if there is one. -/
def aged (key : RouteKey) (s : CacheSession τ) (work : CacheReply τ × CacheSession τ) :
    CacheReply τ × CacheSession τ :=
  match s.ageable with
  | .ok () => work
  | .error r => if Table.has key s.cache.entries then (.failed (.unusable (.refusal r)), s) else work

mutual

/-- The answer to a request, and the session after it. -/
def run [OfNat τ 0] [Add τ] [Sub τ] [LT τ] [DecidableLT τ] (s : CacheSession τ) :
    CacheRequest τ → CacheReply τ × CacheSession τ
  | .get key => s.aged key <|
    let (found, after) := s.cache.get s.now key
    match found with
    | some item => (s.withCache after).handOut item
    | none => (.found none, s.withCache after)
  | .getOrMake key => s.aged key (s.fetch key)
  | .make key =>
    match Route.parse key.1 key.2 with
    | .ok r => s.counted.handOut ⟨s.next, r⟩
    | .error fault => (.failed (.malformed fault), s)
  | .put key route shared cost =>
    let item := ⟨shared.getD s.next, route⟩
    (.value .null, (s.withCache (s.cache.put s.now key item cost)).counted)
  | .invalidate pattern atEnd => (.value .null, s.withCache (s.cache.invalidate pattern atEnd))
  | .resetStats => (.value .null, s.withCache s.cache.resetStats)
  | .renew capacity => (.value .null, s.renewed capacity)
  | .wait time => (.value .null, { s with now := s.now + time })
  | .look view => (.value (view s), s)
  | .expired key lifetime =>
    match Table.get? key s.cache.entries, lifetime with
    | none, _ => (.value .null, s)
    | some e, .ok limit => (.value (.bool (e.isExpired limit s.now)), s)
    | some _, .error r => (.failed (.unusable (.refusal r)), s)
  | .disabled requests =>
    let ((replies, last), after) := s.cache.disabled fun off =>
      let (replies, last) := runAll (s.withCache off) requests
      ((replies, last), last.cache)
    (.block replies, if last.renewals = s.renewals then last.withCache after else last)
  | .elsewhere request =>
    let (reply, after) := run { s.swapped with ageable := .ok () } request
    (reply, { after.swapped with ageable := s.ageable })

/-- The answers to requests one after the other, each with the session after it. -/
def runAll [OfNat τ 0] [Add τ] [Sub τ] [LT τ] [DecidableLT τ] (s : CacheSession τ) :
    List (CacheRequest τ) → List (CacheReply τ × CacheSession τ) × CacheSession τ
  | [] => ([], s)
  | request :: rest =>
    let (reply, after) := run s request
    let (replies, last) := runAll after rest
    ((reply, after) :: replies, last)

end

end CacheSession

end RoutePattern
