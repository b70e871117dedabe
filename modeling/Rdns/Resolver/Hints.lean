import Rdns.Lib.SocketText
import Rdns.Resolver.Resolution

/-!
# Rdns — What the resolver remembers about servers

`rdns/src/resolver/caches.rs`: the delegations learned, the key sets validated, and whether the
local root is in use. All of it is a hint: dropping an entry costs a round trip.
-/

namespace Rdns.Resolver

open Rdns.Lib Rdns.Core Rdns.Dnssec

/-! ## Delegations -/

structure CachedDelegation where
  servers : List SocketAddr
  nsNames : List Name
  expiresAt : Deadline

structure Start where
  zone : Name
  servers : List SocketAddr
  nsNames : List Name

def MAX_DELEGATION_TTL : Nat := 86400

structure DelegationCache where
  entries : Entries Name CachedDelegation
  capacity : Nat

namespace DelegationCache

def makeRoom (c : DelegationCache) (now : Nat) : DelegationCache :=
  let live := c.entries.filter fun e => e.2.expiresAt.isLive now
  match Halving.plan (live.map fun e => e.2.expiresAt.unixSecs) (c.capacity / 2) with
  | none => { c with entries := live }
  | some plan => { c with entries := plan.retain (fun e => e.2.expiresAt.unixSecs) live }

def insert (c : DelegationCache) (now : Nat) (zone : Name) (servers : List SocketAddr)
    (nsNames : List Name) (ttl : Nat) : DelegationCache :=
  if servers.isEmpty ∨ ttl = 0 ∨ c.capacity = 0 then c
  else
    let c := if c.entries.length ≥ c.capacity then c.makeRoom now else c
    { c with
      entries := c.entries.insert zone.toFolded ⟨servers, nsNames, .after now (min ttl MAX_DELEGATION_TTL)⟩ }

def forget (c : DelegationCache) (zone : Name) : DelegationCache :=
  { c with entries := c.entries.remove zone.toFolded }

end DelegationCache

/-! ## Everything remembered -/

structure Hints where
  delegations : DelegationCache
  keys : KeyCache
  localRootUp : Bool

namespace Hints

def bestMatchWhere (validating : Bool) (now : Nat) :
    List Name → Hints → Option (Start × Option (List Dnskey)) × Hints
  | [], hints => (none, hints)
  | candidate :: rest, hints =>
    match hints.delegations.entries.get candidate.toFolded with
    | none => bestMatchWhere validating now rest hints
    | some entry =>
      if entry.expiresAt.isLive now then
        let start : Start := ⟨candidate, entry.servers, entry.nsNames⟩
        if validating then
          match hints.keys.get now candidate with
          | (some held, keys) => (some (start, some held), { hints with keys })
          -- live, but a start here would skip a cut nobody authenticated
          | (none, keys) => bestMatchWhere validating now rest { hints with keys }
        else (some (start, none), hints)
      else bestMatchWhere validating now rest { hints with delegations := hints.delegations.forget candidate }

def bestStart (validating : Bool) (qname : Name) (now : Nat) (hints : Hints) :
    Option (Start × Option (List Dnskey)) × Hints :=
  bestMatchWhere validating now qname.ancestors hints

end Hints

end Rdns.Resolver
