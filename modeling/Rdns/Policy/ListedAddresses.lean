import Rdns.Policy.FirstMatch

/-!
# Rdns — Addresses that a policy lists

A response-IP rule is about every address that leaves. The rules are asked about what the answer
cache, a stale entry or a recursion had; a reply synthesized from held denials leaves at once, and
the AAAA records that DNS64 makes are made behind the check.
-/

namespace Rdns.Policy

open Rdns.Lib Rdns.Core Rdns.Zones Rdns.Dnssec Rdns.Resolver RecordTypes

/-! ## Embedded addresses -/

section Slots

variable {octets : Octets}

theorem getD_foldl_set_of_not_mem {slots : List (Nat × UInt8)} {at_ : Nat} (h : at_ ∉ slots.map Prod.fst) :
    (slots.foldl (fun octets slot => octets.set slot.1 slot.2) octets).getD at_ 0 = octets.getD at_ 0 := by
  induction slots generalizing octets with
  | nil => rfl
  | cons slot rest ih =>
    rw [List.map_cons, List.mem_cons, not_or] at h
    rw [List.foldl_cons, ih h.2, List.getD_eq_getElem?_getD, List.getElem?_set_ne (Ne.symm h.1),
      List.getD_eq_getElem?_getD]

theorem getD_foldl_set_of_mem {slots : List (Nat × UInt8)} (hnodup : (slots.map Prod.fst).Nodup)
    (hbound : ∀ slot ∈ slots, slot.1 < octets.length) {slot : Nat × UInt8} (hslot : slot ∈ slots) :
    (slots.foldl (fun octets slot => octets.set slot.1 slot.2) octets).getD slot.1 0 = slot.2 := by
  induction slots generalizing octets with
  | nil => cases hslot
  | cons first rest ih =>
    rw [List.map_cons, List.nodup_cons] at hnodup
    rw [List.foldl_cons]
    rcases List.mem_cons.mp hslot with rfl | hrest
    · rw [getD_foldl_set_of_not_mem hnodup.1, List.getD_eq_getElem?_getD,
        List.getElem?_set_self (hbound slot List.mem_cons_self), Option.getD_some]
    · refine ih hnodup.2 (fun other hother => ?_) hrest
      rw [List.length_set]
      exact hbound other (List.mem_cons_of_mem _ hother)

end Slots

theorem slots_of_legal {len : Nat} {slots : { slots : List Nat // slots.length = 4 }}
    (h : embeddedOctets len = some slots) : slots.val.Nodup ∧ ∀ slot ∈ slots.val, slot < 16 := by
  unfold embeddedOctets at h
  split_ifs at h
  all_goals
    cases h
    exact ⟨by decide, by decide⟩

/-- **An embedded address says which IPv4 address it embeds.** -/
theorem Nat64Prefix.embed_injective (nat64 : Nat64Prefix) {a b : Ipv4Addr} (h : nat64.embed a = nat64.embed b) :
    a = b := by
  obtain ⟨hnodup, hbound⟩ := slots_of_legal nat64.legal
  have hread : ∀ v4 : Ipv4Addr, ∀ pair ∈ nat64.slots.val.zip v4.octets,
      (nat64.embed v4).octets.getD pair.1 0 = pair.2 := by
    intro v4 pair hpair
    have hfst : (nat64.slots.val.zip v4.octets).map Prod.fst = nat64.slots.val :=
      List.map_fst_zip (by rw [nat64.slots.property, v4.length_ok])
    refine getD_foldl_set_of_mem (by rw [hfst]; exact hnodup) (fun slot hslot => ?_) hpair
    rw [nat64.sixteen]
    exact hbound slot.1 (List.of_mem_zip hslot).1
  have hoctets : a.octets = b.octets := by
    have hall : ∀ v4 : Ipv4Addr, v4.octets = nat64.slots.val.map fun slot => (nat64.embed v4).octets.getD slot 0 := by
      intro v4
      have hlength : v4.octets.length ≤ nat64.slots.val.length := by rw [nat64.slots.property, v4.length_ok]
      have hsnd : (nat64.slots.val.zip v4.octets).map Prod.snd = v4.octets := List.map_snd_zip hlength
      have hfst : (nat64.slots.val.zip v4.octets).map Prod.fst = nat64.slots.val :=
        List.map_fst_zip (by rw [nat64.slots.property, v4.length_ok])
      calc v4.octets = (nat64.slots.val.zip v4.octets).map Prod.snd := hsnd.symm
        _ = (nat64.slots.val.zip v4.octets).map fun pair => (nat64.embed v4).octets.getD pair.1 0 :=
          List.map_congr_left fun pair hpair => (hread v4 pair hpair).symm
        _ = ((nat64.slots.val.zip v4.octets).map Prod.fst).map fun slot => (nat64.embed v4).octets.getD slot 0 := by
          rw [List.map_map]
          rfl
        _ = nat64.slots.val.map fun slot => (nat64.embed v4).octets.getD slot 0 := by rw [hfst]
    rw [hall a, hall b, h]
  cases a
  cases b
  cases hoctets
  rfl

theorem addressIn_aaaa (addr : Ipv6Addr) : ∃ rdata, RecordData.fromParsed (.aaaa addr) = .ok rdata ∧
    rdata.parse = .ok (.aaaa addr) := by
  refine ⟨⟨AAAA, addr.octets⟩, rfl, ?_⟩
  have hne : addr.octets ≠ [] := by
    intro hnil
    have hlength := addr.length_ok
    rw [hnil] at hlength
    cases hlength
  have hmade : RecordData.fromParsed (.aaaa addr) = .ok ⟨AAAA, addr.octets⟩ := rfl
  exact RecordData.fromParsed_parse hmade hne

/-! ## What may not leave -/

def Action.blocks : Action → Bool
  | .nxdomain | .nodata | .drop | .localData _ => true
  | .passthru | .tcpOnly => false

def Blocked (policy : PolicyZones) (query : QuerySection) (addr : IpAddr) : Prop :=
  ∃ zone ∈ policy.zones, ∃ action, zone.responseAction addr query.qname query.qtype = some action ∧
    action.blocks = true

def Carries (serving : Serving) (way : Way) (reply : Sent) (addr : IpAddr) : Prop :=
  (∃ rr ∈ reply.answers, addressIn rr = some addr) ∨
    way = .dns64 ∧ ∃ dns64 v4, serving.dns64 = some dns64 ∧ addr = .v4 v4 ∧
      ∃ rr ∈ reply.answers, addressIn rr = some (.v6 (dns64.nat64.embed v4))

def Exempt (serving : Serving) (client : Client) : Prop :=
  serving.asked client ≠ none ∨ (serving.gather client).1 ≠ [] ∨
    ∃ rewrite, serving.answered client = some rewrite ∧ letsThrough client.transport rewrite = true

/-- **No blocked address leaves** in a reply to a query that no trigger exempts. -/
def Withheld (serving : Serving) (client : Client) : Prop :=
  ∀ way reply, (serving.handleQuery client).outcome = .sent way reply → ∀ addr,
    Carries serving way reply addr → ¬ Blocked serving.policy client.query addr

def Leaves (serving : Serving) (client : Client) (reply : Sent) : Obtained → Prop
  | .held found => reply = found
  | .checked _ found => reply = found ∧
      serving.policy.onAnswer reply.answers client.query.qname client.query.qtype = none
  | .stopped none => reply = serverFailure
  | .stopped (some _) | .bogus => False

/-- No answer synthesized from held denials carries a blocked address, and DNS64 makes no record
from one, nor a record that is one. -/
structure NoneSlips (serving : Serving) (client : Client) : Prop where
  synthesized : ∀ reply, (serving.gather client).2.1 = .held reply →
    serving.synthesizedAaaa client (serving.gather client).2.2 reply = none →
      ∀ rr ∈ reply.answers, ∀ addr, addressIn rr = some addr → ¬ Blocked serving.policy client.query addr
  embedded : ∀ reply dns64 source, Leaves serving client reply (serving.gather client).2.1 →
    serving.dns64Source client (serving.gather client).2.2 reply = some (dns64, source) →
      ∀ rr ∈ source, ∀ v4, addressIn rr = some (.v4 v4) →
        ¬ Blocked serving.policy client.query (.v4 v4) ∧
        ¬ Blocked serving.policy client.query (.v6 (dns64.nat64.embed v4))

/-! ## The response-IP triggers -/

section

variable {serving : Serving} {client : Client} {policy : PolicyZones} {query : QuerySection}

theorem ownerOf_of_isEmpty {index : IpIndex} (h : index.isEmpty = true) (addr : IpAddr) :
    index.ownerOf addr = none := by
  rw [IpIndex.isEmpty, List.isEmpty_iff] at h
  unfold IpIndex.ownerOf
  simp only [Option.bind_eq_bind, Option.bind_eq_none_iff]
  intro span _
  rw [h]
  simp only [List.getElem?_nil, ite_self]

/-- **What the triggers are asked about and do not match is listed nowhere.** -/
theorem not_blocked_of_onAnswer {answers : List ResourceRecord}
    (h : policy.onAnswer answers query.qname query.qtype = none) {rr : ResourceRecord} (hrr : rr ∈ answers)
    {addr : IpAddr} (haddr : addressIn rr = some addr) : ¬ Blocked policy query addr := by
  rintro ⟨zone, hzone, action, haction, -⟩
  have hnone := List.findSome?_eq_none_iff.mp h zone hzone
  rw [PolicyZones.answeredIn] at hnone
  split at hnone
  · grind [PolicyZone.responseAction, PolicyZone.ipAction, ownerOf_of_isEmpty]
  · rw [Option.map_eq_none_iff, List.findSome?_eq_none_iff] at hnone
    have hmissed := hnone addr (List.mem_filterMap.mpr ⟨rr, hrr, haddr⟩)
    rw [haction] at hmissed
    cases hmissed

/-! ## DNS64 -/

theorem parse_of_addressIn_v4 {rr : ResourceRecord} {v4 : Ipv4Addr} (h : addressIn rr = some (.v4 v4)) :
    rr.rdata.parse = .ok (.a v4) := by
  rw [addressIn] at h
  split at h
  · next ip hparse =>
    cases h
    exact hparse
  · cases h
  · cases h

/-- **DNS64 makes the addresses that embed what it starts from**, and no others. -/
theorem mem_synthesize_iff {dns64 : Dns64} {source : List ResourceRecord} {ttlCap : Option Ttl} {addr : IpAddr} :
    (∃ rr ∈ dns64.synthesize source ttlCap, addressIn rr = some addr) ↔
      ∃ v4, addr = .v6 (dns64.nat64.embed v4) ∧ ∃ rr ∈ source, addressIn rr = some (.v4 v4) := by
  constructor
  · rintro ⟨made, hmade, haddr⟩
    obtain ⟨rr, hrr, hone⟩ := List.mem_filterMap.mp hmade
    unfold Dns64.synthesizeOne at hone
    split at hone
    · next v4 hparse =>
      obtain ⟨rdata, hrdata, hback⟩ := addressIn_aaaa (dns64.nat64.embed v4)
      rw [hrdata] at hone
      cases hone
      rw [addressIn] at haddr
      dsimp only at haddr
      rw [hback] at haddr
      refine ⟨v4, (Option.some.inj haddr).symm, rr, hrr, ?_⟩
      rw [addressIn, hparse]
    · grind [addressIn]
    · cases hone
  · rintro ⟨v4, rfl, rr, hrr, haddr⟩
    have hparse := parse_of_addressIn_v4 haddr
    obtain ⟨rdata, hrdata, hback⟩ := addressIn_aaaa (dns64.nat64.embed v4)
    have hone : ∃ made, dns64.synthesizeOne ttlCap rr = some made ∧ made.rdata = rdata := by
      unfold Dns64.synthesizeOne
      rw [hparse]
      dsimp only
      rw [hrdata]
      exact ⟨_, rfl, rfl⟩
    obtain ⟨made, hmade, hrd⟩ := hone
    refine ⟨made, List.mem_filterMap.mpr ⟨rr, hrr, hmade⟩, ?_⟩
    rw [addressIn, hrd, hback]

/-- What `finish_dns64` lets out. -/
theorem withheld_finishDns64_iff {caches : Caches} {way : Way} {reply : Sent} (hway : way ≠ .dns64) :
    (∀ way' sent, serving.finishDns64 client caches way reply = .sent way' sent → ∀ addr,
        Carries serving way' sent addr → ¬ Blocked serving.policy client.query addr) ↔
      (serving.synthesizedAaaa client caches reply = none → ∀ rr ∈ reply.answers, ∀ addr,
        addressIn rr = some addr → ¬ Blocked serving.policy client.query addr) ∧
      ∀ dns64 source, serving.dns64Source client caches reply = some (dns64, source) →
        ∀ rr ∈ source, ∀ v4, addressIn rr = some (.v4 v4) →
          ¬ Blocked serving.policy client.query (.v4 v4) ∧
          ¬ Blocked serving.policy client.query (.v6 (dns64.nat64.embed v4)) := by
  cases hsource : serving.dns64Source client caches reply with
  | none =>
    have hnone : serving.synthesizedAaaa client caches reply = none := by
      rw [Serving.synthesizedAaaa, hsource]
    rw [Serving.finishDns64, hnone]
    constructor
    · intro h
      refine ⟨fun _ rr hrr addr haddr => h way reply rfl addr (.inl ⟨rr, hrr, haddr⟩), fun _ _ h => (by cases h)⟩
    · rintro ⟨h, -⟩ way' sent heq addr hcarries
      cases heq
      rcases hcarries with ⟨rr, hrr, haddr⟩ | ⟨hdns64, -⟩
      · exact h rfl rr hrr addr haddr
      · exact absurd hdns64 hway
  | some pair =>
    obtain ⟨dns64, source⟩ := pair
    have hconfigured : serving.dns64 = some dns64 := by
      rw [Serving.dns64Source] at hsource
      split at hsource
      · cases hsource
      · next found hfound =>
        split at hsource
        · cases hsource
        · obtain ⟨answers, -, heq⟩ := Option.map_eq_some_iff.mp hsource
          cases heq
          exact hfound
    set made := dns64.synthesize source (Serving.soaTtl reply)
    by_cases hempty : made.isEmpty = true
    · -- nothing was made, and so there was no A record
      have hnone : serving.synthesizedAaaa client caches reply = none := by grind [Serving.synthesizedAaaa]
      have hno : ∀ rr ∈ source, ∀ v4, addressIn rr ≠ some (.v4 v4) := by
        intro rr hrr v4 haddr
        have hmake : ∃ record ∈ made, addressIn record = some (.v6 (dns64.nat64.embed v4)) :=
          mem_synthesize_iff.mpr ⟨v4, rfl, rr, hrr, haddr⟩
        obtain ⟨record, hrecord, -⟩ := hmake
        rw [List.isEmpty_iff.mp hempty] at hrecord
        cases hrecord
      rw [Serving.finishDns64, hnone]
      constructor
      · intro h
        refine ⟨fun _ rr hrr addr haddr => h way reply rfl addr (.inl ⟨rr, hrr, haddr⟩),
          fun dns64' source' heq rr hrr v4 haddr => ?_⟩
        cases heq
        exact absurd haddr (hno rr hrr v4)
      · rintro ⟨h, -⟩ way' sent heq addr hcarries
        cases heq
        rcases hcarries with ⟨rr, hrr, haddr⟩ | ⟨hdns64, -⟩
        · exact h rfl rr hrr addr haddr
        · exact absurd hdns64 hway
    · have hsome : serving.synthesizedAaaa client caches reply = some ⟨.ok, made, [], reply.truncated⟩ := by
        rw [Serving.synthesizedAaaa, hsource]
        exact if_neg hempty
      rw [Serving.finishDns64, hsome]
      constructor
      · intro h
        refine ⟨fun hnone => (by cases hnone), fun dns64' source' heq rr hrr v4 haddr => ?_⟩
        cases heq
        have hmake : ∃ record ∈ made, addressIn record = some (.v6 (dns64.nat64.embed v4)) :=
          mem_synthesize_iff.mpr ⟨v4, rfl, rr, hrr, haddr⟩
        obtain ⟨record, hrecord, haddress⟩ := hmake
        exact ⟨h .dns64 _ rfl _ (.inr ⟨rfl, dns64, v4, hconfigured, rfl, record, hrecord, haddress⟩),
          h .dns64 _ rfl _ (.inl ⟨record, hrecord, haddress⟩)⟩
      · rintro ⟨-, h⟩ way' sent heq addr hcarries
        cases heq
        rcases hcarries with hmem | ⟨-, dns64', v4, hdns64, rfl, record, hrecord, haddress⟩
        · obtain ⟨v4, rfl, rr, hrr, haddr⟩ := mem_synthesize_iff.mp hmem
          exact (h dns64 source rfl rr hrr v4 haddr).2
        · rw [hconfigured] at hdns64
          cases hdns64
          obtain ⟨v4', hembed, rr, hrr, haddr⟩ := mem_synthesize_iff.mp ⟨record, hrecord, haddress⟩
          cases dns64.nat64.embed_injective (IpAddr.v6.inj hembed)
          exact (h dns64 source rfl rr hrr v4 haddr).1

theorem way_of_gather {way : Way} {reply : Sent} (h : (serving.gather client).2.1 = .checked way reply) :
    way ≠ .dns64 := by
  have hrecursed : ∀ caches, (serving.recursed client caches).2.1 = .checked way reply → way ≠ .dns64 := by
    intro caches h
    rw [Serving.recursed] at h
    split at h
    · split at h
      · cases h
      · cases h
        decide
    · split at h
      · cases h
      · cases h
    · grind
  rw [Serving.gather] at h
  split at h
  · cases h
    decide
  · cases h
  · grind

/-! ## What slips -/

variable (serving client) in
theorem withheld_respond_iff (obtained : Obtained) (caches : Caches)
    (hway : ∀ way reply, obtained = .checked way reply → way ≠ .dns64)
    (hstopped : ∀ hit, obtained ≠ .stopped (some hit))
    (hreplies : ∀ way reply, obtained = .checked way reply → ∀ rewrite,
      serving.policy.onAnswer reply.answers client.query.qname client.query.qtype = some rewrite →
        letsThrough client.transport rewrite = false) :
    (∀ way reply, serving.respond client (obtained, caches) = .sent way reply → ∀ addr,
        Carries serving way reply addr → ¬ Blocked serving.policy client.query addr) ↔
      (∀ reply, obtained = .held reply → serving.synthesizedAaaa client caches reply = none →
        ∀ rr ∈ reply.answers, ∀ addr, addressIn rr = some addr → ¬ Blocked serving.policy client.query addr) ∧
      ∀ reply, Leaves serving client reply obtained → ∀ dns64 source,
        serving.dns64Source client caches reply = some (dns64, source) →
          ∀ rr ∈ source, ∀ v4, addressIn rr = some (.v4 v4) →
            ¬ Blocked serving.policy client.query (.v4 v4) ∧
            ¬ Blocked serving.policy client.query (.v6 (dns64.nat64.embed v4)) := by
  cases obtained with
  | held reply =>
    rw [Serving.respond, withheld_finishDns64_iff (by decide)]
    constructor
    · rintro ⟨hplain, hmade⟩
      refine ⟨fun reply' heq => ?_, fun reply' hleaves => ?_⟩
      · cases heq
        exact hplain
      · cases hleaves
        exact hmade
    · rintro ⟨hplain, hmade⟩
      exact ⟨hplain reply rfl, hmade reply rfl⟩
  | bogus =>
    refine iff_of_true (fun way sent heq addr hcarries => ?_) ⟨fun _ h => (by cases h), fun _ h => h.elim⟩
    cases heq
    rcases hcarries with ⟨rr, hrr, -⟩ | ⟨hdns64, -⟩
    · exact absurd hrr List.not_mem_nil
    · cases hdns64
  | stopped hit =>
    cases hit with
    | some hit => exact absurd rfl (hstopped hit)
    | none =>
      rw [Serving.respond, withheld_finishDns64_iff (by decide)]
      constructor
      · rintro ⟨-, hmade⟩
        refine ⟨fun _ h => (by cases h), fun reply' hleaves => ?_⟩
        cases hleaves
        exact hmade
      · rintro ⟨-, hmade⟩
        exact ⟨fun _ rr hrr => absurd hrr List.not_mem_nil, hmade serverFailure rfl⟩
  | checked way reply =>
    rw [Serving.respond]
    cases hanswer : serving.policy.onAnswer reply.answers client.query.qname client.query.qtype with
    | none =>
      rw [Option.bind_none]
      dsimp only
      rw [withheld_finishDns64_iff (hway way reply rfl)]
      constructor
      · rintro ⟨-, hmade⟩
        refine ⟨fun _ h => (by cases h), fun reply' hleaves => ?_⟩
        cases hleaves.1
        exact hmade
      · rintro ⟨-, hmade⟩
        exact ⟨fun _ rr hrr addr haddr => not_blocked_of_onAnswer hanswer hrr haddr, hmade reply ⟨rfl, hanswer⟩⟩
    | some rewrite =>
      -- the match replies, and so the reply is the policy's own
      have hfalse := hreplies way reply rfl rewrite hanswer
      refine iff_of_true (fun way' sent heq => ?_) ⟨fun _ h => (by cases h), fun reply' hleaves => ?_⟩
      · split at heq
        · cases heq
        · next hnone =>
          rw [bind_applyPolicy.mp hnone rewrite rfl] at hfalse
          cases hfalse
      · obtain ⟨rfl, hnone⟩ := hleaves
        rw [hanswer] at hnone
        cases hnone

theorem withheld_iff_of_not_exempt (hord : serving.Ordinary client) (hexempt : ¬ Exempt serving client) :
    Withheld serving client ↔ NoneSlips serving client := by
  rw [Exempt, not_or, not_or, not_not, not_not] at hexempt
  obtain ⟨hasked, hmet, hthrough⟩ := hexempt
  rw [Withheld, handleQuery_of_asked hord.1 hord.2 fun rewrite h => by
    rw [hasked] at h
    cases h]
  have hslips := withheld_respond_iff serving client (serving.gather client).2.1 (serving.gather client).2.2
    (fun way reply => way_of_gather) (fun hit h => ?_)
    (fun way reply hchecked rewrite hanswer => ?_)
  · refine hslips.trans ⟨fun h => ⟨h.1, ?_⟩, fun h => ⟨h.synthesized, ?_⟩⟩
    · exact fun reply dns64 source hleaves => h.2 reply hleaves dns64 source
    · exact fun reply hleaves dns64 source => h.embedded reply dns64 source hleaves
  · have hmem := (mem_of_lastRefusal (lastRefusal_of_stopped h)).1
    rw [hmet] at hmem
    cases hmem
  · refine Bool.eq_false_iff.mpr fun hlets => hthrough ⟨rewrite, ?_, hlets⟩
    rw [Serving.answered, hchecked]
    exact hanswer

end

/-- **No blocked address leaves**, to a query that no trigger exempts, exactly where no wildcard
answer synthesized from held denials carries one, and DNS64 makes no record from one. -/
theorem no_listed_address_iff (serving : Serving) (client : Client) :
    (serving.Ordinary client → ¬ Exempt serving client → Withheld serving client) ↔
      (serving.Ordinary client → ¬ Exempt serving client → NoneSlips serving client) :=
  forall_congr' fun hord => forall_congr' fun hexempt => withheld_iff_of_not_exempt hord hexempt

/-! ## An address that is blocked, inside another -/

def listedZones : PolicyZones :=
  ⟨(PolicyZone.parse plainReader ⟨".zone", .given⟩ []
    "@ 60 IN SOA . . 1 2 3 4 5\n32.1.2.0.192.rpz-ip 60 IN CNAME .".toList).toOption.toList⟩

theorem length_wellKnown : [12, 13, 14, 15].length = 4 := rfl

def wellKnown : Nat64Prefix where
  octets := [0, 0x64, 0xff, 0x9b, 0, 0, 0, 0, 0, 0, 0, 0, 0, 0, 0, 0]
  len := 96
  slots := ⟨[12, 13, 14, 15], length_wellKnown⟩
  sixteen := rfl
  legal := rfl

def v6Client : Client := { wwwClient with query := ⟨wwwRoot, .of AAAA, .in⟩ }

def v6Serving : Serving :=
  { wwwServing listedZones with
    dns64 := some ⟨wellKnown, []⟩
    resolve := .done (.ok ({ requestFor v6Client.query with response := true },
      .indeterminate "DNSSEC validation is not enabled"))
    behind := fun _ => .done (.ok ({ requestFor wwwClient.query with response := true, answers := [wwwAddress] },
      .indeterminate "DNSSEC validation is not enabled")) }

/-- **A blocked address leaves inside another**: the AAAA made for `www.` embeds it. -/
theorem blocked_address_leaves : v6Serving.Ordinary v6Client ∧ ¬ Exempt v6Serving v6Client ∧
    ¬ Withheld v6Serving v6Client := by
  have hasked : (v6Serving.asked v6Client).isNone = true := by decide +kernel
  have hobtained : v6Serving.gather v6Client = ([], .checked .recursion ⟨.ok, [], [], false⟩,
      (v6Serving.gather v6Client).2.2) := rfl
  have hnothing : (listedZones.onAnswer [] wwwRoot (.of AAAA)).isNone = true := by decide +kernel
  have hanswered : v6Serving.answered v6Client = none := by
    rw [Serving.answered, hobtained]
    exact Option.isNone_iff_eq_none.mp hnothing
  have hexempt : ¬ Exempt v6Serving v6Client := by
    rintro (h | h | ⟨rewrite, hsome, -⟩)
    · exact h (Option.isNone_iff_eq_none.mp hasked)
    · exact h rfl
    · rw [hanswered] at hsome
      cases hsome
  have hlisted : (listedZones.zones.any fun zone => (zone.responseAction (.v4 ⟨[192, 0, 2, 1], rfl⟩) wwwRoot
      (.of AAAA)).any Action.blocks) = true := by
    decide +kernel
  refine ⟨⟨rfl, rfl⟩, hexempt, fun hwithheld => ?_⟩
  have hslips := (withheld_iff_of_not_exempt ⟨rfl, rfl⟩ hexempt).mp hwithheld
  have hfree := (hslips.embedded ⟨.ok, [], [], false⟩ ⟨wellKnown, []⟩ [wwwAddress]
    ⟨rfl, Option.isNone_iff_eq_none.mp hnothing⟩ rfl wwwAddress List.mem_cons_self ⟨[192, 0, 2, 1], rfl⟩ rfl).1
  obtain ⟨zone, hzone, haction⟩ := List.any_eq_true.mp hlisted
  obtain ⟨action, hsome, hblocks⟩ := (Option.any_eq_true _ _).mp haction
  exact hfree ⟨zone, hzone, action, hsome, hblocks⟩

end Rdns.Policy
