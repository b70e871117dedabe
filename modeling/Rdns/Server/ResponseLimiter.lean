import Rdns.Policy.PolicyZone

/-!
# Rdns — A budget of response octets

`rdns/src/security.rs` and `peer.rs`: every response over UDP is charged to the block of addresses
it goes to, which is told apart from the peer that asked. A table that is full forgets the blocks
it takes to have their whole budget again: those that were quiet for as many whole seconds as the
budget holds whole seconds of the rate.

The source counts in `f64`; the counts are whole numbers here, and the lock is never poisoned.

Main results:

* `keepsBudget_iff` — when a limiter keeps its budget.
-/

namespace Rdns.Server

open Rdns.Lib Rdns.Core Rdns.Policy

/-! ## Peers and targets -/

/-- An IPv4-mapped address is the IPv4 address. -/
def toCanonical : IpAddr → IpAddr
  | .v4 ip => .v4 ip
  | .v6 ip =>
    if h : ip.octets.take 12 = [0, 0, 0, 0, 0, 0, 0, 0, 0, 0, 0xff, 0xff] then
      .v4 ⟨ip.octets.drop 12, by rw [List.length_drop, ip.length_ok]⟩
    else .v6 ip

/-- The address of a client, in canonical form. -/
structure Peer where
  ip : IpAddr
deriving DecidableEq

def Peer.of (ip : IpAddr) : Peer := ⟨toCanonical ip⟩

def IPV6_PREFIX : Nat := 56

def RESPONSE_TARGET_IPV4_PREFIX : Nat := 24

/-- The octets with all bits cleared behind the first `bits`. -/
def masked (bits : Nat) (octets : Octets) : Octets :=
  octets.mapIdx fun i octet => octet &&& UInt8.ofNat (255 * 2 ^ (8 - min 8 (bits - 8 * i)))

def block (peer : Peer) (v4 v6 : Nat) : IpAddr :=
  match peer.ip with
  | .v4 a => .v4 ⟨masked v4 a.octets, by rw [masked, List.length_mapIdx, a.length_ok]⟩
  | .v6 a => .v6 ⟨masked v6 a.octets, by rw [masked, List.length_mapIdx, a.length_ok]⟩

/-- The block of addresses that shares one budget. -/
structure ResponseTarget where
  ip : IpAddr
deriving DecidableEq

def ResponseTarget.of (peer : Peer) : ResponseTarget :=
  ⟨block peer RESPONSE_TARGET_IPV4_PREFIX IPV6_PREFIX⟩

/-! ## The limiter -/

inductive ResponseVerdict where
  | send
  | truncate
  | drop
deriving DecidableEq

/-- A verdict, and whether the target is out of the table because it is full. -/
structure Judged (ν : Type) where
  verdict : ν
  untracked : Bool
deriving DecidableEq

/-- The budget left to a target, as of its last refill. -/
structure ByteBucket where
  bytes : Nat
  lastRefill : Nat
  /-- How many responses in a row were over budget, up to the end of `u32`. -/
  overBudget : Nat
deriving DecidableEq

structure ResponseLimiter where
  bytesPerSec : Nat
  burstBytes : Nat
  slip : Nat
  clients : Entries ResponseTarget ByteBucket
  maxTracked : Nat

namespace ResponseLimiter

def new (bytesPerSec burstBytes slip : UInt32) : ResponseLimiter :=
  ⟨bytesPerSec.toNat, burstBytes.toNat, slip.toNat, [], 10000⟩

def perSecond (bytesPerSec : UInt32) : ResponseLimiter :=
  new bytesPerSec (.ofNat (min (bytesPerSec.toNat * 4) (2 ^ 32 - 1))) 2

def trackingAtMost (l : ResponseLimiter) (maxTracked : Nat) : ResponseLimiter := { l with maxTracked }

def isEnabled (l : ResponseLimiter) : Bool := l.bytesPerSec > 0

/-- After how many seconds a bucket is taken to be full again. -/
def fullAfter (l : ResponseLimiter) : Nat :=
  max (if l.bytesPerSec = 0 then 1 else l.burstBytes / l.bytesPerSec) 1

/-- The idle buckets are forgotten. -/
def forgetIdle (l : ResponseLimiter) (now : Nat) : ResponseLimiter :=
  { l with clients := l.clients.filter fun e => now - e.2.lastRefill < l.fullAfter }

def refill (l : ResponseLimiter) (bucket : ByteBucket) (now : Nat) : Nat :=
  min (bucket.bytes + (now - bucket.lastRefill) * l.bytesPerSec) l.burstBytes

/-- One response charged to its target. -/
def charge (l : ResponseLimiter) (target : ResponseTarget) (responseBytes now : Nat) :
    Judged ResponseVerdict × ResponseLimiter :=
  let bucket := (l.clients.get target).getD ⟨l.burstBytes, now, 0⟩
  let bytes := l.refill bucket now
  if bytes ≥ responseBytes then
    (⟨.send, false⟩, { l with clients := l.clients.insert target ⟨bytes - responseBytes, now, 0⟩ })
  else
    let overBudget := min (bucket.overBudget + 1) (2 ^ 32 - 1)
    (⟨if l.slip > 0 ∧ overBudget % l.slip = 0 then .truncate else .drop, false⟩,
      { l with clients := l.clients.insert target ⟨bytes, now, overBudget⟩ })

/-- What is done with one response: it is sent, truncated or dropped. -/
def judge (l : ResponseLimiter) (ip : Peer) (responseBytes now : Nat) :
    Judged ResponseVerdict × ResponseLimiter :=
  if l.isEnabled = false then (⟨.send, false⟩, l)
  else
    let target := ResponseTarget.of ip
    if (l.clients.get target).isNone ∧ l.clients.length ≥ l.maxTracked then
      let l := l.forgetIdle now
      if l.clients.length ≥ l.maxTracked then (⟨.truncate, true⟩, l) else l.charge target responseBytes now
    else l.charge target responseBytes now

/-- A limiter as its constructors make it. -/
inductive Built : ResponseLimiter → Prop
  | new (bytesPerSec burstBytes slip : UInt32) : Built (new bytesPerSec burstBytes slip)
  | perSecond (bytesPerSec : UInt32) : Built (perSecond bytesPerSec)
  | trackingAtMost {l : ResponseLimiter} (h : Built l) (maxTracked : Nat) : Built (l.trackingAtMost maxTracked)

theorem Built.clients_eq {l : ResponseLimiter} (h : Built l) : l.clients = [] := by
  induction h with
  | new => rfl
  | perSecond => rfl
  | trackingAtMost h maxTracked ih => exact ih

/-! ## Runs -/

/-- One response that is judged. -/
structure Call where
  peer : Peer
  responseBytes : Nat
  now : Nat

def Call.target (c : Call) : ResponseTarget := ResponseTarget.of c.peer

def Call.counts (c : Call) (verdict : ResponseVerdict) (target : ResponseTarget) (start span : Nat) : Bool :=
  verdict = .send ∧ c.target = target ∧ start ≤ c.now ∧ c.now ≤ start + span

/-- The octets sent to a target in an interval, over a run of responses. -/
def run (l : ResponseLimiter) (target : ResponseTarget) (start span : Nat) :
    List Call → Nat × ResponseLimiter
  | [] => (0, l)
  | c :: rest =>
    let (judged, l) := l.judge c.peer c.responseBytes c.now
    let (sent, l) := run l target start span rest
    ((if c.counts judged.verdict target start span then c.responseBytes else 0) + sent, l)

/-- **The budget**: no target gets more than the burst and the rate of the interval. -/
def KeepsBudget (l : ResponseLimiter) : Prop :=
  ∀ (calls : List Call) (target : ResponseTarget) (start span : Nat), (calls.Pairwise fun a b => a.now ≤ b.now) →
    (l.run target start span calls).1 ≤ l.burstBytes + l.bytesPerSec * span

/-- The table has room for all the targets there are. -/
def RoomForAll (maxTracked : Nat) : Prop :=
  ∀ peers : List Peer, (peers.map ResponseTarget.of).Nodup → peers.length ≤ maxTracked

/-- What is forgotten had its whole budget again, or nothing is ever forgotten that comes back early. -/
def ForgetsOnlyFull (l : ResponseLimiter) : Prop :=
  l.bytesPerSec ∣ l.burstBytes ∨ l.burstBytes < l.bytesPerSec ∨ l.maxTracked ≤ 1 ∨ RoomForAll l.maxTracked

variable {l : ResponseLimiter} {start span now sent : Nat} {target : ResponseTarget}

/-! ## The table -/

/-- What holds of the table at every moment. -/
structure Table (l : ResponseLimiter) (now : Nat) : Prop where
  nodup : (l.clients.map Prod.fst).Nodup
  peers : ∀ e ∈ l.clients, ∃ peer, ResponseTarget.of peer = e.1
  room : l.clients.length ≤ l.maxTracked
  past : ∀ e ∈ l.clients, e.2.lastRefill ≤ now

theorem Table.later {later : Nat} (h : Table l now) (hle : now ≤ later) : Table l later :=
  ⟨h.nodup, h.peers, h.room, fun e he => (h.past e he).trans hle⟩

theorem Table.forget (h : Table l now) : Table (l.forgetIdle now) now :=
  ⟨h.nodup.sublist (List.filter_sublist.map _), fun e he => h.peers e (List.mem_filter.mp he).1,
    (List.length_filter_le _ _).trans h.room, fun e he => h.past e (List.mem_filter.mp he).1⟩

variable {peer : Peer} {c : Call}

theorem Table.insert {left excess : Nat} (h : Table l now)
    (hroom : l.clients.get (.of peer) = none → l.clients.length < l.maxTracked) :
    Table { l with clients := l.clients.insert (.of peer) ⟨left, now, excess⟩ } now := by
  have hmem : ∀ e ∈ l.clients.insert (.of peer) ⟨left, now, excess⟩, e = (.of peer, ⟨left, now, excess⟩) ∨ e ∈ l.clients := by
    intro e he
    exact (List.mem_cons.mp he).imp_right fun he => (List.mem_filter.mp he).1
  refine ⟨Entries.nodup_insert h.nodup, fun e he => ?_, ?_, fun e he => ?_⟩
  · rcases hmem e he with rfl | he
    · exact ⟨peer, rfl⟩
    · exact h.peers e he
  · cases hget : l.clients.get (.of peer) with
    | none => exact (Entries.length_insert_le _ _ _).trans (hroom hget)
    | some bucket => exact (Entries.length_insert_held _ (by rw [hget]; rfl)).trans h.room
  · rcases hmem e he with rfl | he
    · exact Nat.le_refl _
    · exact h.past e he

/-! ## What is forgotten -/

theorem burst_le_twice (hpos : 0 < l.bytesPerSec) :
    l.burstBytes ≤ l.bytesPerSec * l.fullAfter + l.bytesPerSec * l.fullAfter := by
  have hlt := Nat.lt_mul_div_succ l.burstBytes hpos
  have hquot : l.burstBytes / l.bytesPerSec ≤ l.fullAfter := by
    rw [fullAfter, if_neg (Nat.ne_of_gt hpos)]
    exact Nat.le_max_left _ _
  have hone : 1 ≤ l.fullAfter := Nat.le_max_right _ _
  rw [Nat.mul_add_one] at hlt
  have hmul := Nat.mul_le_mul_left l.bytesPerSec hquot
  have hmul' := Nat.mul_le_mul_left l.bytesPerSec hone
  omega

theorem burst_le (hpos : 0 < l.bytesPerSec) (h : l.bytesPerSec ∣ l.burstBytes ∨ l.burstBytes < l.bytesPerSec) :
    l.burstBytes ≤ l.bytesPerSec * l.fullAfter := by
  rcases h with hdvd | hlt
  · rw [fullAfter, if_neg (Nat.ne_of_gt hpos)]
    calc l.burstBytes = l.bytesPerSec * (l.burstBytes / l.bytesPerSec) := (Nat.mul_div_cancel' hdvd).symm
      _ ≤ _ := Nat.mul_le_mul_left _ (Nat.le_max_left _ _)
  · calc l.burstBytes ≤ l.bytesPerSec * 1 := by omega
      _ ≤ _ := Nat.mul_le_mul_left _ (Nat.le_max_right _ _)

theorem Table.tracks_all (h : Table l now) (hall : RoomForAll l.maxTracked) (hfull : l.clients.length ≥ l.maxTracked)
    (peer : Peer) : l.clients.get (.of peer) ≠ none := by
  intro hnone
  have hexists : ∀ entries : Entries ResponseTarget ByteBucket, (∀ e ∈ entries, ∃ peer, ResponseTarget.of peer = e.1) →
      ∃ peers : List Peer, peers.map ResponseTarget.of = entries.map Prod.fst := by
    intro entries hentries
    induction entries with
    | nil => exact ⟨[], rfl⟩
    | cons e rest ih =>
      obtain ⟨first, hfirst⟩ := hentries e List.mem_cons_self
      obtain ⟨peers, hpeers⟩ := ih fun e he => hentries e (List.mem_cons_of_mem _ he)
      exact ⟨first :: peers, by rw [List.map_cons, List.map_cons, hfirst, hpeers]⟩
  obtain ⟨peers, hpeers⟩ := hexists l.clients h.peers
  have hlen := hall (peer :: peers) (by
    rw [List.map_cons, hpeers, List.nodup_cons]
    refine ⟨fun hmem => ?_, h.nodup⟩
    obtain ⟨e, he, hkey⟩ := List.mem_map.mp hmem
    exact Entries.get_eq_none_iff.mp hnone e he hkey)
  have hsame : peers.length = l.clients.length := by simpa using congrArg List.length hpeers
  rw [List.length_cons] at hlen
  omega

/-! ## One target's account -/

/-- What a target has been sent since `start` and what it has left stay within the budget; while it
is forgotten, what it was sent has been made up for, or will have been when it can come back. -/
structure Budget (l : ResponseLimiter) (start now : Nat) (target : ResponseTarget) (sent : Nat) : Prop where
  held : ∀ bucket, l.clients.get target = some bucket →
    sent = 0 ∨ sent + bucket.bytes + l.bytesPerSec * start ≤ l.burstBytes + l.bytesPerSec * bucket.lastRefill
  away : l.clients.get target = none →
    sent = 0 ∨ sent + l.bytesPerSec * start ≤ l.bytesPerSec * now ∨
      l.maxTracked = 1 ∧ ∃ e ∈ l.clients, sent + l.bytesPerSec * start ≤ l.bytesPerSec * (e.2.lastRefill + l.fullAfter)

/-- What was sent to a target that is not in the table, against the rate. -/
def Spared (l : ResponseLimiter) (start now sent : Nat) : Prop :=
  sent = 0 ∨ sent + l.bytesPerSec * start ≤ l.bytesPerSec * now ∨
    l.maxTracked = 1 ∧ sent + l.bytesPerSec * start ≤ l.bytesPerSec * (now + l.fullAfter)

/-- Time passing leaves the budget kept. -/
theorem Budget.later {later : Nat} (h : Budget l start now target sent) (hle : now ≤ later) :
    Budget l start later target sent :=
  ⟨h.held, fun hnone => (h.away hnone).imp_right (Or.imp_left fun hmade =>
    hmade.trans (Nat.mul_le_mul_left _ hle))⟩

theorem Budget.spared (h : Budget l start now target sent) (htable : Table l now) (hnone : l.clients.get target = none) :
    Spared l start now sent := by
  refine (h.away hnone).imp_right (Or.imp_right fun ⟨hone, e, he, hmade⟩ => ⟨hone, hmade.trans ?_⟩)
  exact Nat.mul_le_mul_left _ (Nat.add_le_add_right (htable.past e he) _)

theorem Budget.madeUp (h : Budget l start now target sent) (hnone : l.clients.get target = none)
    (hroom : l.clients.length < l.maxTracked) : sent = 0 ∨ sent + l.bytesPerSec * start ≤ l.bytesPerSec * now := by
  refine (h.away hnone).imp_right fun hrest => hrest.resolve_right ?_
  rintro ⟨hone, e, he, -⟩
  have hsome := List.length_pos_of_mem he
  omega

theorem Budget.forget_away (h : Budget l start now target sent) (hnone : l.clients.get target = none) :
    Budget (l.forgetIdle now) start now target sent := by
  have hstill : (l.forgetIdle now).clients.get target = none :=
    Entries.get_eq_none_iff.mpr fun e he => Entries.get_eq_none_iff.mp hnone e (List.mem_filter.mp he).1
  refine ⟨fun bucket hsome => absurd (hstill.symm.trans hsome) nofun, fun _ => ?_⟩
  rcases h.away hnone with hzero | hmade | ⟨hone, e, he, hmade⟩
  · exact .inl hzero
  · exact .inr (.inl hmade)
  · by_cases hkept : now - e.2.lastRefill < l.fullAfter
    · exact .inr (.inr ⟨hone, e, List.mem_filter.mpr ⟨he, by simpa using hkept⟩, hmade⟩)
    · refine .inr (.inl (hmade.trans (Nat.mul_le_mul_left _ ?_)))
      have hone' : 1 ≤ l.fullAfter := Nat.le_max_right _ _
      omega

/-- Forgetting full buckets leaves the budget of a held target kept. -/
theorem Budget.forget_held {bucket : ByteBucket} (h : Budget l start now target sent)
    (hpos : 0 < l.bytesPerSec) (hfull : ForgetsOnlyFull l) (htable : Table l now)
    (hnew : l.clients.get (.of peer) = none) (hlen : l.clients.length ≥ l.maxTracked)
    (hsome : l.clients.get target = some bucket) (hidle : l.fullAfter ≤ now - bucket.lastRefill) :
    Spared l start now sent := by
  rcases h.held bucket hsome with hzero | hheld
  · exact .inl hzero
  have hone : 1 ≤ l.fullAfter := Nat.le_max_right _ _
  have hback : l.bytesPerSec * bucket.lastRefill + l.bytesPerSec * l.fullAfter ≤ l.bytesPerSec * now := by
    rw [← Nat.mul_add]
    exact Nat.mul_le_mul_left _ (by omega)
  have htwice := burst_le_twice hpos
  rcases hfull with hdvd | hsmall | hfew | hall
  · have hfilled := burst_le hpos (.inl hdvd)
    exact .inr (.inl (by omega))
  · have hfilled := burst_le hpos (.inr hsmall)
    exact .inr (.inl (by omega))
  · have hsome := List.length_pos_of_mem (Entries.mem_of_get hsome)
    have hroom := htable.room
    refine .inr (.inr ⟨by omega, ?_⟩)
    rw [Nat.mul_add]
    omega
  · exact absurd hnew (htable.tracks_all hall hlen peer)

/-- What a charge to `other` needs of a target's account. -/
structure Ready (l : ResponseLimiter) (start now : Nat) (target other : ResponseTarget) (sent : Nat) : Prop where
  held : ∀ bucket, l.clients.get target = some bucket →
    sent = 0 ∨ sent + bucket.bytes + l.bytesPerSec * start ≤ l.burstBytes + l.bytesPerSec * bucket.lastRefill
  away : l.clients.get target = none → Spared l start now sent
  back : target = other → l.clients.get target = none →
    sent = 0 ∨ sent + l.bytesPerSec * start ≤ l.bytesPerSec * now

theorem Ready.insert {other : ResponseTarget} {left excess : Nat} (h : Ready l start now target other sent)
    (hne : target ≠ other) :
    Budget { l with clients := l.clients.insert other ⟨left, now, excess⟩ } start now target sent := by
  have hget : (l.clients.insert other ⟨left, now, excess⟩).get target = l.clients.get target := by
    rw [Entries.get_insert, if_neg hne]
  refine ⟨fun bucket hsome => h.held bucket (hget ▸ hsome), fun hnone => ?_⟩
  refine (h.away (hget ▸ hnone)).imp_right (Or.imp_right fun ⟨hone, hmade⟩ => ⟨hone, _, List.mem_cons_self, hmade⟩)

theorem Budget.ready {other : ResponseTarget} (h : Budget l start now target sent) (htable : Table l now)
    (hroom : l.clients.get other = none → l.clients.length < l.maxTracked) :
    Ready l start now target other sent :=
  ⟨h.held, h.spared htable, fun heq hnone => h.madeUp hnone (hroom (heq ▸ hnone))⟩

theorem Budget.ready_forget (h : Budget l start now target sent) (hpos : 0 < l.bytesPerSec)
    (hfull : ForgetsOnlyFull l) (htable : Table l now) (hnew : l.clients.get (.of peer) = none)
    (hlen : l.clients.length ≥ l.maxTracked)
    (hroom : (l.forgetIdle now).clients.length < l.maxTracked) :
    Ready (l.forgetIdle now) start now target (.of peer) sent := by
  cases hget : l.clients.get target with
  | none => exact (h.forget_away hget).ready htable.forget fun _ => hroom
  | some bucket =>
    have hne : target ≠ .of peer := by
      rintro rfl
      exact absurd (hnew.symm.trans hget) nofun
    refine ⟨fun bucket' hsome => ?_, fun hnone => ?_, fun heq => absurd heq hne⟩
    · have hmem := (List.mem_filter.mp (Entries.mem_of_get hsome)).1
      rw [Entries.get_eq_some_of_mem htable.nodup hmem] at hget
      obtain rfl := Option.some.inj hget
      exact h.held _ (Entries.get_eq_some_of_mem htable.nodup hmem)
    · refine h.forget_held hpos hfull htable hnew hlen hget (Nat.not_lt.mp fun hkept => ?_)
      exact Entries.get_eq_none_iff.mp hnone _
        (List.mem_filter.mpr ⟨Entries.mem_of_get hget, by simpa using hkept⟩) rfl

/-- A charge sets one bucket and nothing else. -/
theorem charge_eq (l : ResponseLimiter) (target : ResponseTarget) (responseBytes now : Nat) :
    ∃ verdict left excess, l.charge target responseBytes now =
        (⟨verdict, false⟩, { l with clients := l.clients.insert target ⟨left, now, excess⟩ }) ∧
      left + (if verdict = .send then responseBytes else 0) =
        l.refill ((l.clients.get target).getD ⟨l.burstBytes, now, 0⟩) now := by
  unfold charge
  dsimp only
  split
  next hge => exact ⟨_, _, _, rfl, by rw [if_pos rfl]; omega⟩
  next hlt =>
    refine ⟨_, _, _, rfl, ?_⟩
    rw [if_neg (by split <;> decide)]
    rfl

theorem Ready.refilled (h : Ready l start now target target sent) (htable : Table l now) :
    let bytes := l.refill ((l.clients.get target).getD ⟨l.burstBytes, now, 0⟩) now
    bytes ≤ l.burstBytes ∧
      (sent = 0 ∨ sent + bytes + l.bytesPerSec * start ≤ l.burstBytes + l.bytesPerSec * now) := by
  refine ⟨Nat.min_le_right _ _, ?_⟩
  cases hget : l.clients.get target with
  | none =>
    refine (h.back rfl hget).imp_right fun hmade => ?_
    have hle : l.refill ⟨l.burstBytes, now, 0⟩ now ≤ l.burstBytes := Nat.min_le_right _ _
    rw [Option.getD_none]
    omega
  | some bucket =>
    refine (h.held bucket hget).imp_right fun hheld => ?_
    obtain ⟨elapsed, helapsed⟩ := Nat.exists_eq_add_of_le (htable.past _ (Entries.mem_of_get hget))
    have hle : l.refill bucket now ≤ bucket.bytes + (now - bucket.lastRefill) * l.bytesPerSec := Nat.min_le_left _ _
    rw [Option.getD_some]
    dsimp only at helapsed
    rw [helapsed, Nat.add_sub_cancel_left, Nat.mul_comm elapsed] at hle
    rw [helapsed, Nat.mul_add]
    omega

def Call.adds (c : Call) (verdict : ResponseVerdict) (target : ResponseTarget) (start span : Nat) : Nat :=
  if c.counts verdict target start span then c.responseBytes else 0

theorem Ready.charged (h : Ready l start c.now target c.target sent) (htable : Table l c.now)
    (hsent : sent ≤ l.burstBytes + l.bytesPerSec * span) :
    let after := l.charge c.target c.responseBytes c.now
    let sent' := sent + c.adds after.1.verdict target start span
    Budget after.2 start c.now target sent' ∧ sent' ≤ l.burstBytes + l.bytesPerSec * span := by
  obtain ⟨verdict, left, excess, hcharge, hleft⟩ := charge_eq l c.target c.responseBytes c.now
  rw [hcharge]
  dsimp only
  by_cases htarget : target = c.target
  · subst htarget
    obtain ⟨hburst, hrefilled⟩ := h.refilled htable
    rw [← hleft] at hburst hrefilled
    have hget : (l.clients.insert c.target ⟨left, c.now, excess⟩).get c.target = some ⟨left, c.now, excess⟩ := by
      rw [Entries.get_insert, if_pos rfl]
    have hadds : c.adds verdict c.target start span = 0 ∨
        c.adds verdict c.target start span = (if verdict = .send then c.responseBytes else 0) ∧
          start ≤ c.now ∧ c.now ≤ start + span := by
      unfold Call.adds Call.counts
      split
      next hcounts =>
        obtain ⟨hsend, -, hin⟩ := of_decide_eq_true hcounts
        exact .inr ⟨(if_pos hsend).symm, hin⟩
      next => exact .inl rfl
    have hkept : sent + c.adds verdict c.target start span = 0 ∨
        sent + c.adds verdict c.target start span + left + l.bytesPerSec * start ≤
          l.burstBytes + l.bytesPerSec * c.now := by
      rcases hadds with hnone | ⟨hall, hstart, -⟩
      · rw [hnone]
        exact hrefilled.imp id fun hle => by omega
      · rw [hall]
        have hmul := Nat.mul_le_mul_left l.bytesPerSec hstart
        exact .inr (by omega)
    refine ⟨⟨fun bucket hsome => ?_, fun hnone => absurd (hget.symm.trans hnone) nofun⟩, ?_⟩
    · obtain rfl := Option.some.inj (hget.symm.trans hsome)
      exact hkept
    · rcases hadds with hnone | ⟨-, -, hend⟩
      · rwa [hnone]
      · have hmul := Nat.mul_le_mul_left l.bytesPerSec hend
        rw [Nat.mul_add] at hmul
        omega
  · have hadds : c.adds verdict target start span = 0 :=
      if_neg fun hcounts => htarget (of_decide_eq_true hcounts).2.1.symm
    rw [hadds, Nat.add_zero]
    exact ⟨h.insert htarget, hsent⟩

/-! ## Every response -/

theorem charge_table (h : Table l c.now)
    (hroom : l.clients.get c.target = none → l.clients.length < l.maxTracked) :
    Table (l.charge c.target c.responseBytes c.now).2 c.now := by
  obtain ⟨verdict, left, excess, hcharge, -⟩ := charge_eq l c.target c.responseBytes c.now
  rw [hcharge]
  exact h.insert hroom

theorem charge_settings (l : ResponseLimiter) (target : ResponseTarget) (responseBytes now : Nat) :
    ∃ clients, (l.charge target responseBytes now).2 = { l with clients } := by
  obtain ⟨verdict, left, excess, hcharge, -⟩ := charge_eq l target responseBytes now
  exact ⟨_, by rw [hcharge]⟩

/-- A response is charged to its target, or sent untracked. -/
theorem judge_cases (hpos : 0 < l.bytesPerSec) (c : Call) :
    (l.judge c.peer c.responseBytes c.now = l.charge c.target c.responseBytes c.now ∧
      (l.clients.get c.target = none → l.clients.length < l.maxTracked)) ∨
    (l.clients.get c.target = none ∧ l.clients.length ≥ l.maxTracked ∧
      (l.forgetIdle c.now).clients.length < l.maxTracked ∧
      l.judge c.peer c.responseBytes c.now = (l.forgetIdle c.now).charge c.target c.responseBytes c.now) ∨
    ((l.forgetIdle c.now).clients.length ≥ l.maxTracked ∧
      l.judge c.peer c.responseBytes c.now = (⟨.truncate, true⟩, l.forgetIdle c.now)) := by
  have henabled : ¬ l.isEnabled = false := by
    rw [isEnabled, decide_eq_false_iff_not]
    exact not_not_intro hpos
  unfold judge
  rw [if_neg henabled]
  dsimp only
  split
  next hguard =>
    split
    next hstill => exact .inr (.inr ⟨hstill, rfl⟩)
    next hmade => exact .inr (.inl ⟨Option.isNone_iff_eq_none.mp hguard.1, hguard.2, Nat.not_le.mp hmade, rfl⟩)
  next hguard =>
    refine .inl ⟨rfl, fun hnone => Nat.not_le.mp fun hlen => hguard ⟨?_, hlen⟩⟩
    exact Option.isNone_iff_eq_none.mpr hnone

/-- **One response keeps every target's account.** -/
theorem Budget.judged (h : Budget l start c.now target sent) (hpos : 0 < l.bytesPerSec)
    (hfull : ForgetsOnlyFull l) (htable : Table l c.now)
    (hsent : sent ≤ l.burstBytes + l.bytesPerSec * span) :
    let after := l.judge c.peer c.responseBytes c.now
    let sent' := sent + c.adds after.1.verdict target start span
    (∃ clients, after.2 = { l with clients }) ∧ Table after.2 c.now ∧ Budget after.2 start c.now target sent' ∧
      sent' ≤ l.burstBytes + l.bytesPerSec * span := by
  rcases judge_cases hpos c with ⟨hjudge, hroom⟩ | ⟨hnew, hlen, hroom, hjudge⟩ | ⟨hstill, hjudge⟩
  · rw [hjudge]
    exact ⟨charge_settings _ _ _ _, charge_table htable hroom, (h.ready htable hroom).charged htable hsent⟩
  · rw [hjudge]
    obtain ⟨clients, hclients⟩ := charge_settings (l.forgetIdle c.now) c.target c.responseBytes c.now
    exact ⟨⟨clients, hclients⟩, charge_table htable.forget fun _ => hroom,
      (h.ready_forget hpos hfull htable hnew hlen hroom).charged htable.forget hsent⟩
  · have hsame : l.forgetIdle c.now = l := by
      have hclients := List.filter_sublist.eq_of_length_le (htable.room.trans hstill)
      rw [forgetIdle, hclients]
    rw [hjudge, hsame]
    have hadds : c.adds .truncate target start span = 0 := if_neg fun hcounts => by
      cases (of_decide_eq_true hcounts).1
    dsimp only
    rw [hadds]
    exact ⟨⟨_, rfl⟩, htable, h, hsent⟩

/-- **A run keeps the budget**, from any state that does. -/
theorem run_le {calls : List Call} (hpos : 0 < l.bytesPerSec) (hfull : ForgetsOnlyFull l) (htable : Table l now)
    (h : Budget l start now target sent) (hsent : sent ≤ l.burstBytes + l.bytesPerSec * span)
    (hlater : ∀ c ∈ calls, now ≤ c.now) (hsorted : calls.Pairwise fun a b => a.now ≤ b.now) :
    sent + (l.run target start span calls).1 ≤ l.burstBytes + l.bytesPerSec * span := by
  induction calls generalizing l now sent with
  | nil => exact hsent
  | cons c rest ih =>
    obtain ⟨hrest, hsorted⟩ := List.pairwise_cons.mp hsorted
    have hnow := hlater c List.mem_cons_self
    obtain ⟨⟨clients, hclients⟩, htable, h, hsent⟩ :=
      (h.later hnow).judged hpos hfull (htable.later hnow) hsent
    have hrun := ih (l := (l.judge c.peer c.responseBytes c.now).2) (hclients ▸ hpos) (hclients ▸ hfull) htable h
      (hclients ▸ hsent) hrest hsorted
    rw [hclients] at hrun
    rw [run, ← Nat.add_assoc, hclients]
    exact hrun

/-! ## What goes wrong -/

theorem judge_new {responseBytes : Nat} (peer : Peer) (now : Nat) (hpos : 0 < l.bytesPerSec)
    (hnew : l.clients.get (.of peer) = none) (hroom : l.clients.length < l.maxTracked)
    (hle : responseBytes ≤ l.burstBytes) :
    ∃ left excess, l.judge peer responseBytes now =
      (⟨.send, false⟩, { l with clients := (.of peer, ⟨left, now, excess⟩) :: l.clients }) := by
  have hkept : l.clients.remove (.of peer) = l.clients :=
    List.filter_eq_self.mpr fun e he => by simpa using Entries.get_eq_none_iff.mp hnew e he
  rcases judge_cases hpos ⟨peer, responseBytes, now⟩ with ⟨hjudge, -⟩ | ⟨-, hlen, -⟩ | ⟨hstill, -⟩
  · refine ⟨l.burstBytes - responseBytes, 0, hjudge.trans ?_⟩
    have hfresh : l.refill ⟨l.burstBytes, now, 0⟩ now = l.burstBytes := by simp [refill]
    unfold charge Call.target
    dsimp only
    rw [hnew, Option.getD_none, hfresh, if_pos hle, Entries.insert, hkept]
  · omega
  · have hstill' : l.maxTracked ≤ (l.clients.filter fun e => now - e.2.lastRefill < l.fullAfter).length := hstill
    have hfew := hstill'.trans (List.length_filter_le _ _)
    omega

theorem run_fill {peers : List Peer} (target : ResponseTarget) (start span : Nat) (hpos : 0 < l.bytesPerSec) (hnodup : (peers.map ResponseTarget.of).Nodup)
    (hnew : ∀ peer ∈ peers, l.clients.get (.of peer) = none)
    (hroom : l.clients.length + peers.length ≤ l.maxTracked) (hpast : ∀ e ∈ l.clients, e.2.lastRefill = 0) :
    ∃ clients, (l.run target start span (peers.map fun peer => ⟨peer, 0, 0⟩)).2 = { l with clients } ∧
      clients.length = l.clients.length + peers.length ∧ (∀ e ∈ clients, e.2.lastRefill = 0) ∧
      ∀ e ∈ clients, e ∈ l.clients ∨ e.1 ∈ peers.map ResponseTarget.of := by
  induction peers generalizing l with
  | nil => exact ⟨l.clients, rfl, rfl, hpast, fun e he => .inl he⟩
  | cons peer peers ih =>
    obtain ⟨hfresh, hnodup⟩ := List.nodup_cons.mp hnodup
    rw [List.length_cons] at hroom
    obtain ⟨left, excess, hjudge⟩ :=
      judge_new peer 0 hpos (hnew peer List.mem_cons_self) (by omega) (Nat.zero_le l.burstBytes)
    obtain ⟨clients, hrun, hlen, hlast, hfrom⟩ :=
      ih (l := { l with clients := (.of peer, ⟨left, 0, excess⟩) :: l.clients }) hpos hnodup
        (fun other hother => Entries.get_eq_none_iff.mpr fun e he => by
          rcases List.mem_cons.mp he with rfl | he
          · exact fun heq => hfresh (List.mem_map.mpr ⟨other, hother, heq.symm⟩)
          · exact Entries.get_eq_none_iff.mp (hnew other (List.mem_cons_of_mem _ hother)) e he)
        (by
          show l.clients.length + 1 + peers.length ≤ l.maxTracked
          omega)
        (fun e he => by
          rcases List.mem_cons.mp he with rfl | he
          · rfl
          · exact hpast e he)
    refine ⟨clients, ?_, ?_, hlast, fun e he => ?_⟩
    · rw [List.map_cons, run]
      dsimp only
      rw [hjudge]
      exact hrun
    · rw [hlen, List.length_cons, List.length_cons]
      omega
    · rcases hfrom e he with he | he
      · rcases List.mem_cons.mp he with rfl | he
        · exact .inr List.mem_cons_self
        · exact .inl he
      · exact .inr (List.mem_cons_of_mem _ he)

theorem run_append (l : ResponseLimiter) (target : ResponseTarget) (start span : Nat) (before after : List Call) :
    (l.run target start span (before ++ after)).1 =
      (l.run target start span before).1 + ((l.run target start span before).2.run target start span after).1 := by
  induction before generalizing l with
  | nil => exact (Nat.zero_add _).symm
  | cons c before ih =>
    rw [List.cons_append, run, run]
    dsimp only
    rw [ih, Nat.add_assoc]

/-- **A budget that is no whole number of seconds is given out twice**: a new target drives out one
that was sent all it may be, and that one is back with its budget before it has been made up for. -/
theorem overrun {peers : List Peer} (hpos : 0 < l.bytesPerSec) (hempty : l.clients = [])
    (hburst : l.bytesPerSec ≤ l.burstBytes) (hmany : 2 ≤ l.maxTracked)
    (hnodup : (peers.map ResponseTarget.of).Nodup) (hlen : peers.length = l.maxTracked + 1) :
    ∃ (calls : List Call) (target : ResponseTarget), (calls.Pairwise fun a b => a.now ≤ b.now) ∧
      l.burstBytes + l.burstBytes ≤ (l.run target 0 (l.burstBytes / l.bytesPerSec) calls).1 := by
  obtain ⟨victim, others, rfl⟩ : ∃ victim others, peers = victim :: others :=
    List.exists_cons_of_length_pos (by omega)
  obtain ⟨between, last, rfl⟩ : ∃ between last, others = between ++ [last] := by
    refine ⟨_, _, (List.dropLast_append_getLast (l := others) fun hnil => ?_).symm⟩
    rw [hnil] at hlen
    simp only [List.length_singleton] at hlen
    omega
  rw [List.map_cons, List.nodup_cons, List.map_append, List.nodup_append] at hnodup
  obtain ⟨hvictim, hbetween, -, hapart⟩ := hnodup
  simp only [List.length_cons, List.length_append, List.length_nil] at hlen
  obtain ⟨span, hspan⟩ : ∃ span, l.burstBytes / l.bytesPerSec = span := ⟨_, rfl⟩
  have hfull : l.fullAfter = span := by
    rw [fullAfter, if_neg (Nat.ne_of_gt hpos), hspan]
    exact Nat.max_eq_left (hspan ▸ Nat.div_pos hburst hpos)
  rw [hspan]
  -- the victim's first responses take its whole budget
  obtain ⟨left, excess, hfirst⟩ := judge_new victim 0 hpos (by rw [hempty]; rfl)
    (by rw [hempty, List.length_nil]; omega) (Nat.le_refl _)
  rw [hempty] at hfirst
  -- the others fill the table
  obtain ⟨clients, hfill, hclients, hpast, hfrom⟩ := run_fill
    (l := { l with clients := [((.of victim : ResponseTarget), ⟨left, 0, excess⟩)] }) (.of victim) 0 span hpos hbetween
    (fun peer hpeer => Entries.get_eq_none_iff.mpr fun e he heq => by
      obtain rfl := List.mem_singleton.mp he
      exact hvictim (List.mem_append_left _ (List.mem_map.mpr ⟨peer, hpeer, heq.symm⟩)))
    (by simp only [List.length_singleton]; omega)
    (fun e he => by rw [List.mem_singleton.mp he])
  simp only [List.length_singleton] at hclients
  -- the last one drives them all out
  have hnone : Entries.get clients (.of last) = none := by
    refine Entries.get_eq_none_iff.mpr fun e he heq => ?_
    rcases hfrom e he with he | he
    · obtain rfl := List.mem_singleton.mp he
      exact hvictim (List.mem_append_right _ (List.mem_singleton.mpr heq))
    · exact hapart _ he _ List.mem_cons_self heq
  have hdrop : ({ l with clients } : ResponseLimiter).forgetIdle span = { l with clients := [] } := by
    have hnil : (clients.filter fun e => span - e.2.lastRefill < l.fullAfter) = [] := by
      rw [List.filter_eq_nil_iff]
      intro e he
      rw [hpast e he, hfull]
      simp
    rw [forgetIdle]
    exact congrArg (fun clients => ({ l with clients } : ResponseLimiter)) hnil
  obtain ⟨left', excess', hlast⟩ : ∃ left excess, (({ l with clients } : ResponseLimiter).judge last 0 span).2 =
      { l with clients := [((.of last : ResponseTarget), ⟨left, span, excess⟩)] } := by
    rcases judge_cases (l := { l with clients }) hpos ⟨last, 0, span⟩ with ⟨-, hroom⟩ | ⟨-, -, -, hjudge⟩ | ⟨hstill, -⟩
    · have hlt := hroom hnone
      dsimp only at hlt
      omega
    · dsimp only at hjudge
      rw [hjudge, hdrop]
      obtain ⟨verdict, left, excess, hcharge, -⟩ :=
        charge_eq { l with clients := [] } (Call.target ⟨last, 0, span⟩) 0 span
      exact ⟨left, excess, by rw [hcharge]; rfl⟩
    · rw [hdrop] at hstill
      have hzero : l.maxTracked ≤ 0 := hstill
      omega
  -- and the victim is back
  obtain ⟨left'', excess'', hback⟩ := judge_new victim span
    (l := { l with clients := [((.of last : ResponseTarget), ⟨left', span, excess'⟩)] }) hpos
    (Entries.get_eq_none_iff.mpr fun e he heq => by
      obtain rfl := List.mem_singleton.mp he
      exact hvictim (List.mem_append_right _ (List.mem_singleton.mpr heq.symm)))
    (by simp only [List.length_singleton]; omega) (Nat.le_refl l.burstBytes)
  have hcounts : ∀ now, now ≤ span → (Call.mk victim l.burstBytes now).counts .send (.of victim) 0 span = true :=
    fun now hle => decide_eq_true ⟨rfl, rfl, Nat.zero_le _, by rwa [Nat.zero_add]⟩
  refine ⟨⟨victim, l.burstBytes, 0⟩ :: (between.map (fun peer => ⟨peer, 0, 0⟩) ++
    [⟨last, 0, span⟩, ⟨victim, l.burstBytes, span⟩]), .of victim, ?_, ?_⟩
  · rw [List.pairwise_cons, List.pairwise_append]
    refine ⟨fun _ _ => Nat.zero_le _, ?_, by simp, ?_⟩
    · rw [List.pairwise_map]
      exact List.pairwise_of_forall fun _ _ => Nat.le_refl _
    · intro a ha b _
      obtain ⟨peer, -, rfl⟩ := List.mem_map.mp ha
      exact Nat.zero_le _
  · rw [run]
    dsimp only
    rw [hfirst]
    dsimp only
    rw [run_append, hfill, if_pos (hcounts 0 (Nat.zero_le _)), run]
    dsimp only
    rw [hlast, run]
    dsimp only
    rw [hback]
    dsimp only
    rw [if_pos (hcounts span (Nat.le_refl _))]
    omega

/-- Where there is no room for all, one more target than fits exists. -/
theorem exists_peers_of_not_roomForAll {maxTracked : Nat} (h : ¬ RoomForAll maxTracked) :
    ∃ peers : List Peer, (peers.map ResponseTarget.of).Nodup ∧ peers.length = maxTracked + 1 := by
  obtain ⟨peers, hnot⟩ := not_forall.mp h
  obtain ⟨hnodup, hlen⟩ := Classical.not_imp.mp hnot
  refine ⟨peers.take (maxTracked + 1), hnodup.sublist ((List.take_sublist _ _).map _), ?_⟩
  rw [List.length_take]
  omega

/-- **No target is sent more than its budget exactly when what is forgotten is full.** -/
theorem keepsBudget_iff {l : ResponseLimiter} (hbuilt : Built l) (hpos : 0 < l.bytesPerSec) :
    KeepsBudget l ↔ ForgetsOnlyFull l := by
  have hempty := hbuilt.clients_eq
  constructor
  · intro hkeeps
    by_contra hnot
    obtain ⟨hdvd, hnot⟩ := not_or.mp hnot
    obtain ⟨hburst, hnot⟩ := not_or.mp hnot
    obtain ⟨hmany, hroom⟩ := not_or.mp hnot
    obtain ⟨peers, hnodup, hlen⟩ := exists_peers_of_not_roomForAll hroom
    obtain ⟨calls, target, hsorted, hover⟩ := overrun hpos hempty (Nat.not_lt.mp hburst) (Nat.not_le.mp hmany) hnodup hlen
    have hle := hkeeps calls target 0 (l.burstBytes / l.bytesPerSec) hsorted
    have hdiv := Nat.mul_div_le l.burstBytes l.bytesPerSec
    exact hdvd (Dvd.intro (l.burstBytes / l.bytesPerSec) (by omega))
  · intro hfull calls target start span hsorted
    have htable : Table l 0 := by
      refine ⟨?_, ?_, ?_, ?_⟩ <;> rw [hempty]
      · exact List.nodup_nil
      · exact fun e he => absurd he List.not_mem_nil
      · exact Nat.zero_le _
      · exact fun e he => absurd he List.not_mem_nil
    have hbudget : Budget l start 0 target 0 := ⟨fun _ _ => .inl rfl, fun _ => .inl rfl⟩
    have hrun := run_le hpos hfull htable hbudget (Nat.zero_le (l.burstBytes + l.bytesPerSec * span))
      (fun _ _ => Nat.zero_le _) hsorted
    rwa [Nat.zero_add] at hrun

theorem keepsBudget_iff_perSecond : KeepsBudget (perSecond 8192) :=
  (keepsBudget_iff (.perSecond 8192) (by decide)).mpr (.inl (by decide))

theorem length_v4 (a b c d : UInt8) : [a, b, c, d].length = 4 := rfl

def v4Peer (a b c d : UInt8) : Peer := .of (.v4 ⟨[a, b, c, d], length_v4 a b c d⟩)

def threePeers : Peer × Peer × Peer := (v4Peer 192 0 2 1, v4Peer 198 51 100 1, v4Peer 203 0 113 1)

theorem budget_given_twice : ¬ KeepsBudget ((new 1000 1999 2).trackingAtMost 2) := by
  intro hkeeps
  have hle := hkeeps [⟨threePeers.1, 1999, 0⟩, ⟨threePeers.2.1, 0, 0⟩, ⟨threePeers.2.2, 0, 1⟩, ⟨threePeers.1, 1999, 1⟩]
    (.of threePeers.1) 0 1 (by simp)
  revert hle
  decide

end ResponseLimiter

end Rdns.Server
