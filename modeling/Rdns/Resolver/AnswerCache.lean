import Rdns.Dnssec.Verification
import Rdns.Resolver.NsecCache

/-!
# Rdns — The positive answer cache

`DnsCache` of `rdns/src/cache.rs`: a question to the records that answered it, kept for the
shortest TTL among them, a day at most, and for the stale window after that (RFC 8767).

The entries are kept in the order a walk over their hash map would meet them; a run may
shuffle them before every call.
-/

namespace Rdns.Resolver

open Rdns.Lib Rdns.Core Rdns.Dnssec

/-! ## How long -/

/-- The longest anything is cached, whatever the record says (RFC 8767 §4). -/
def MAX_CACHE_TTL : Nat := 86400

def STALE_ANSWER_TTL : Nat := 30

/-- How often an expired entry may hand out a refresh (RFC 8767 §5). -/
def STALE_REFRESH_INTERVAL : Nat := 30

def PREFETCH_AT : Nat := 10

namespace Deadline

def default : Deadline := ⟨0⟩

def remaining (deadline : Deadline) (now : Nat) : Nat := deadline.unixSecs - now

def extendedBy (deadline : Deadline) (secs : Nat) : Deadline := ⟨min (deadline.unixSecs + secs) MAX_SECS⟩

def claimStaleRefresh (deadline : Deadline) (refreshing : Bool) (now : Nat) : Bool × Deadline :=
  if refreshing && !deadline.isLive now then (true, .after now STALE_REFRESH_INTERVAL)
  else (false, deadline)

end Deadline

structure StalePolicy where
  maxStale : Nat
deriving DecidableEq

namespace StalePolicy

def OFF : StalePolicy := ⟨0⟩

def isOn (policy : StalePolicy) : Bool := decide (policy.maxStale > 0)

def keeps (policy : StalePolicy) (expiresAt : Deadline) (now : Nat) : Bool :=
  (expiresAt.extendedBy policy.maxStale).isLive now

end StalePolicy

/-! ## Entries -/

abbrev NameTypeKey := Name × Qtype

def nameTypeKey (name : Name) (qtype : Qtype) : NameTypeKey := (name.toFolded, qtype)

structure CacheEntry where
  records : List ResourceRecord
  expiresAt : Deadline
  ttl : Nat
  outcome : Outcome
  refreshing : Bool
  staleRefreshAfter : Deadline
  learnedAt : Nat
deriving DecidableEq

namespace CacheEntry

def isExpired (entry : CacheEntry) (now : Nat) : Bool := !entry.expiresAt.isLive now

def nearlyExpired (entry : CacheEntry) (now : Nat) : Bool :=
  decide (entry.expiresAt.remaining now ≤ entry.ttl / PREFETCH_AT)

end CacheEntry

/-- A hit: the records, what validation concluded, and whether the caller owes a refresh. -/
structure Cached where
  records : List ResourceRecord
  outcome : Outcome
  refresh : Bool
  learnedAt : Nat
deriving DecidableEq

def cacheTtl (records : List ResourceRecord) : Nat :=
  ((records.map fun rr => min rr.ttl.secs.toNat MAX_CACHE_TTL).min?).getD 300

structure DnsCache where
  cache : Entries NameTypeKey CacheEntry
  maxEntries : Nat
  stale : StalePolicy
deriving DecidableEq

namespace DnsCache

def lookup (c : DnsCache) (now : Nat) (name : Name) (qtype : Qtype) (prefetching : Bool) :
    Option Cached × DnsCache :=
  let key := nameTypeKey name qtype
  match c.cache.get key with
  | none => (none, c)
  | some entry =>
    if !entry.isExpired now then
      let refresh := prefetching && !entry.refreshing && entry.nearlyExpired now
      (some ⟨entry.records, entry.outcome, refresh, entry.learnedAt⟩,
        if refresh then { c with cache := c.cache.insert key { entry with refreshing := true } } else c)
    else if !c.stale.keeps entry.expiresAt now then (none, { c with cache := c.cache.remove key })
    else (none, c)

def getStale (c : DnsCache) (now : Nat) (name : Name) (qtype : Qtype) (refreshing : Bool) :
    Option Cached × DnsCache :=
  let key := nameTypeKey name qtype
  if !c.stale.isOn then (none, c)
  else match (c.cache.get key).filter fun e => e.isExpired now && c.stale.keeps e.expiresAt now with
    | none => (none, c)
    | some entry =>
      let (refresh, after) := entry.staleRefreshAfter.claimStaleRefresh refreshing now
      (some ⟨withTtl entry.records STALE_ANSWER_TTL, entry.outcome, refresh, entry.learnedAt⟩,
        { c with cache := c.cache.insert key { entry with staleRefreshAfter := after } })

def evictOldest (c : DnsCache) (now : Nat) : DnsCache :=
  let usable := c.cache.filter fun e => c.stale.keeps e.2.expiresAt now
  match Halving.plan (usable.map fun e => e.2.expiresAt.unixSecs) (c.maxEntries / 2) with
  | none => { c with cache := usable }
  | some plan => { c with cache := plan.retain (fun e => e.2.expiresAt.unixSecs) usable }

def putValidated (c : DnsCache) (now : Nat) (name : Name) (qtype : Qtype) (records : List ResourceRecord)
    (outcome : Outcome) : DnsCache :=
  if records.isEmpty ∨ c.maxEntries = 0 then c
  else
    let minTtl := cacheTtl records
    let c := if c.cache.length ≥ c.maxEntries then c.evictOldest now else c
    { c with
      cache := c.cache.insert (nameTypeKey name qtype)
        ⟨records, .after now minTtl, minTtl, outcome, false, .default, now⟩ }

def forgetAtOrBelow (c : DnsCache) (node : Name) : DnsCache :=
  { c with cache := c.cache.filter fun e => !e.1.1.isAtOrUnder node }

def forgetName (c : DnsCache) (name : Name) : DnsCache :=
  { c with cache := c.cache.filter fun e => e.1.1 ≠ name.toFolded }

def clear (c : DnsCache) : DnsCache := { c with cache := [] }

end DnsCache

end Rdns.Resolver
