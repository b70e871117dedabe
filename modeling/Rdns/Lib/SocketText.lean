import Rdns.Lib.AddressText

/-!
# Socket addresses in text

An address and a port, as the standard library writes them and reads them: `192.0.2.1:53`,
`[2001:db8::1]:53`, and `[fe80::1%3]:53` where a scope goes with the address.

The readers of `AddressText` stop at a character none of them reads as they stop at the end
of the text (`readIpv6_append`), so what reads an address alone reads it before the rest of
a socket address (`parseSocketAddr_show`).
-/

namespace Rdns.Lib

/-! ## Socket addresses -/

/-- `SocketAddr`, with the flow label of every address read from text, which is zero. -/
inductive SocketAddr where
  | v4 (ip : { octets : Octets // octets.length = 4 }) (port : UInt16)
  | v6 (ip : { octets : Octets // octets.length = 16 }) (scope : UInt32) (port : UInt16)
deriving DecidableEq

def showSocketAddr : SocketAddr → Text
  | .v4 ip port => showIpv4 ip.val ++ ':' :: decimal port.toNat
  | .v6 ip scope port =>
    '[' :: showIpv6 ip.val ++ (if scope = 0 then [] else '%' :: decimal scope.toNat) ++
      ']' :: ':' :: decimal port.toNat

def readAfter (sep : Char) (limit : Nat) (text : Text) : Option (Nat × Text) :=
  (readGivenChar sep text).bind fun rest => readNumber 10 rest.length true limit rest

def readSocketAddrV4 (text : Text) : Option (SocketAddr × Text) := do
  let (octets, rest) ← readIpv4 text
  let (port, rest) ← readAfter ':' 65536 rest
  if h : (octets.map UInt8.ofNat).length = 4 then some (.v4 ⟨_, h⟩ (UInt16.ofNat port), rest) else none

def readSocketAddrV6 (text : Text) : Option (SocketAddr × Text) := do
  let rest ← readGivenChar '[' text
  let (segments, rest) ← readIpv6 rest
  let (scope, rest) := (readAfter '%' 4294967296 rest).getD (0, rest)
  let rest ← readGivenChar ']' rest
  let (port, rest) ← readAfter ':' 65536 rest
  if h : (octetsOf segments).length = 16 then
    some (.v6 ⟨_, h⟩ (UInt32.ofNat scope) (UInt16.ofNat port), rest)
  else none

def parseSocketAddr (text : Text) : Option SocketAddr :=
  match (readSocketAddrV4 text).or (readSocketAddrV6 text) with
  | some (addr, []) => some addr
  | _ => none

/-! ## Readers stop at what they do not read -/

def Foreign (rest : Text) : Prop :=
  ∃ c tail, rest = c :: tail ∧ isDigitOf 16 c = false ∧ isDigitOf 10 c = false ∧ c ≠ ':' ∧ c ≠ '.'

def StopsAt {α : Type} (rest : Text) (read : Text → Option (α × Text)) : Prop :=
  ∀ text, read (text ++ rest) = (read text).map fun got => (got.1, got.2 ++ rest)

section Stops

variable {rest : Text}

theorem while_append_of_stop {p : Char → Bool} {c : Char} {tail : Text} (hc : p c = false) (text : Text) :
    (text ++ c :: tail).takeWhile p = text.takeWhile p ∧
      (text ++ c :: tail).dropWhile p = text.dropWhile p ++ c :: tail := by
  induction text with
  | nil =>
    rw [List.nil_append, List.takeWhile_cons, List.dropWhile_cons, hc]
    exact ⟨rfl, rfl⟩
  | cons d text ih =>
    rw [List.cons_append, List.takeWhile_cons, List.dropWhile_cons, List.takeWhile_cons, List.dropWhile_cons]
    split
    · exact ⟨congrArg _ ih.1, ih.2⟩
    · exact ⟨rfl, rfl⟩

theorem stopsAt_readNumber {radix : Nat} (hradix : radix = 10 ∨ radix = 16) (h : Foreign rest)
    (maxDigits : Nat) (allowZeroPrefix : Bool) (limit : Nat) :
    StopsAt rest (readNumber radix maxDigits allowZeroPrefix limit) := by
  intro text
  obtain ⟨c, tail, rfl, h16, h10, -⟩ := h
  have hc : isDigitOf radix c = false := by
    rcases hradix with rfl | rfl
    · exact h10
    · exact h16
  obtain ⟨htake, hdrop⟩ := @while_append_of_stop _ c tail hc text
  rw [readNumber, readNumber, htake, hdrop]
  dsimp only
  split
  · rfl
  · split
    · rfl
    · rfl

theorem readGivenChar_append {sep : Char} (hsep : sep = ':' ∨ sep = '.') (h : Foreign rest) (text : Text) :
    readGivenChar sep (text ++ rest) = (readGivenChar sep text).map (· ++ rest) := by
  cases text with
  | nil =>
    obtain ⟨c, tail, rfl, -, -, hcolon, hdot⟩ := h
    have hne : c ≠ sep := by grind
    show readGivenChar sep (c :: tail) = none
    rw [readGivenChar, if_neg hne]
  | cons d text => simp [readGivenChar]

theorem stopsAt_readSeparator {α : Type} {sep : Char} (hsep : sep = ':' ∨ sep = '.') (h : Foreign rest)
    (index : Nat) {inner : Text → Option (α × Text)} (hinner : StopsAt rest inner) :
    StopsAt rest (readSeparator sep index inner) := by
  intro text
  rw [readSeparator, readSeparator]
  split
  · rw [readGivenChar_append hsep h]
    cases readGivenChar sep text with
    | none => rfl
    | some after => exact hinner after
  · exact hinner text

theorem stopsAt_readOctet (h : Foreign rest) (index : Nat) : StopsAt rest (readOctet index) :=
  stopsAt_readSeparator (.inr rfl) h index (stopsAt_readNumber (.inl rfl) h 3 false 256)

theorem StopsAt.bind {α β : Type} {first : Text → Option (α × Text)} (hfirst : StopsAt rest first)
    {next : α → Text → Option (β × Text)} (hnext : ∀ a, StopsAt rest (next a)) :
    StopsAt rest fun text => (first text).bind fun got => next got.1 got.2 := by
  intro text
  dsimp only
  rw [hfirst text]
  cases first text with
  | none => rfl
  | some got => exact hnext got.1 got.2

theorem stopsAt_readIpv4 (h : Foreign rest) : StopsAt rest readIpv4 := by
  have hquad : ∀ a b c d : Nat, StopsAt rest fun text => some ([a, b, c, d], text) :=
    fun a b c d text => rfl
  exact (stopsAt_readOctet h 0).bind fun a => (stopsAt_readOctet h 1).bind fun b =>
    (stopsAt_readOctet h 2).bind fun c => (stopsAt_readOctet h 3).bind fun d => hquad a b c d

theorem readGroups_append (h : Foreign rest) (count : Nat) : ∀ (index : Nat) (text : Text),
    readGroups index count (text ++ rest) =
      ((readGroups index count text).1, (readGroups index count text).2.1,
        (readGroups index count text).2.2 ++ rest) := by
  induction count with
  | zero => exact fun index text => rfl
  | succ count ih =>
    intro index text
    have hquad := stopsAt_readSeparator (.inl rfl) h index (stopsAt_readIpv4 h) text
    have hgroup := stopsAt_readSeparator (.inl rfl) h index (stopsAt_readNumber (.inr rfl) h 4 true 65536) text
    have hquads : (if count > 0 then readSeparator ':' index readIpv4 (text ++ rest) else none) =
        (if count > 0 then readSeparator ':' index readIpv4 text else none).map fun got =>
          (got.1, got.2 ++ rest) := by
      split
      · exact hquad
      · rfl
    rw [readGroups, readGroups, hquads, hgroup]
    cases (if count > 0 then readSeparator ':' index readIpv4 text else none) with
    | some got => rfl
    | none =>
      cases readSeparator ':' index (readNumber 16 4 true 65536) text with
      | none => rfl
      | some got =>
        show (_, _, _) = _
        dsimp only [Option.map]
        rw [ih]

/-- **An IPv6 address stops where its text does.** -/
theorem stopsAt_readIpv6 (h : Foreign rest) : StopsAt rest readIpv6 := by
  intro text
  rw [readIpv6, readIpv6, readGroups_append h]
  dsimp only
  split
  · rfl
  · split
    · rfl
    · show (readGivenChar ':' (_ ++ rest)).bind _ = Option.map _ ((readGivenChar ':' _).bind _)
      rw [readGivenChar_append (.inl rfl) h]
      cases readGivenChar ':' (readGroups 0 8 text).2.2 with
      | none => rfl
      | some once =>
        show (readGivenChar ':' (once ++ rest)).bind _ = Option.map _ ((readGivenChar ':' once).bind _)
        rw [readGivenChar_append (.inl rfl) h]
        cases readGivenChar ':' once with
        | none => rfl
        | some twice =>
          show some (_, (readGroups 0 _ (twice ++ rest)).2.2) = some (_, _ ++ rest)
          rw [readGroups_append h]

end Stops

/-! ## The round trip -/

theorem readAfter_decimal {sep : Char} {limit n : Nat} (hlimit : n < limit) {rest : Text}
    (hrest : EndsNumber 10 rest) :
    readAfter sep limit (sep :: decimal n ++ rest) = some (n, rest) := by
  rw [readAfter, List.cons_append, readGivenChar, if_pos rfl, Option.bind_some]
  refine readNumber_digits (by decide) (by decide) hlimit ?_ hrest
  rw [List.length_append]
  exact Nat.le_add_right _ _

theorem readAfter_other {sep c : Char} (hne : c ≠ sep) (limit : Nat) (rest : Text) :
    readAfter sep limit (c :: rest) = none := by
  rw [readAfter, readGivenChar, if_neg hne]
  rfl

theorem readSocketAddrV4_show (ip : { octets : Octets // octets.length = 4 }) (port : UInt16) :
    readSocketAddrV4 (showSocketAddr (.v4 ip port)) = some (.v4 ip port, []) := by
  obtain ⟨octets, hlen⟩ := ip
  match octets, hlen with
  | [a, b, c, d], hlen =>
    have hport := @readAfter_decimal ':' 65536 _ port.toNat_lt [] (endsNumber_nil 10)
    rw [List.append_nil] at hport
    rw [readSocketAddrV4, showSocketAddr, readIpv4_show a b c d (endsNumber_cons (by decide) _)]
    show (readAfter ':' 65536 (':' :: decimal port.toNat) >>= _) = _
    rw [hport]
    simp only [Option.bind_eq_bind, Option.bind_some, List.map_cons, List.map_nil, UInt8.ofNat_toNat,
      UInt16.ofNat_toNat]
    rfl

theorem readSocketAddrV6_show (ip : { octets : Octets // octets.length = 16 }) (scope : UInt32)
    (port : UInt16) :
    readSocketAddrV6 (showSocketAddr (.v6 ip scope port)) = some (.v6 ip scope port, []) := by
  obtain ⟨octets, hlen⟩ := ip
  obtain ⟨segments, hread, hback⟩ : ∃ segments, readIpv6 (showIpv6 octets) = some (segments, []) ∧
      octetsOf segments = octets := by
    have hparse := parseIpv6_show hlen
    rw [parseIpv6] at hparse
    split at hparse
    next segments hread => exact ⟨segments, hread, Option.some.inj hparse⟩
    · cases hparse
  have hport := @readAfter_decimal ':' 65536 _ port.toNat_lt [] (endsNumber_nil 10)
  rw [List.append_nil] at hport
  -- what follows the address: the scope, if there is one, and the bracket
  have htail : ∀ tail : Text, readAfter '%' 4294967296
      ((if scope = 0 then [] else '%' :: decimal scope.toNat) ++ ']' :: tail)
        = if scope = 0 then none else some (scope.toNat, ']' :: tail) := by
    intro tail
    split
    · exact readAfter_other (by decide) _ tail
    · exact readAfter_decimal scope.toNat_lt (endsNumber_cons (by decide) tail)
  have hforeign : ∀ tail : Text, Foreign ((if scope = 0 then [] else '%' :: decimal scope.toNat) ++
      ']' :: tail) := by
    intro tail
    split
    · exact ⟨']', tail, rfl, by decide, by decide, by decide, by decide⟩
    · exact ⟨'%', _, rfl, by decide, by decide, by decide, by decide⟩
  rw [readSocketAddrV6, showSocketAddr]
  show (readIpv6 (_ ++ _ ++ _) >>= _) = _
  rw [List.append_assoc, stopsAt_readIpv6 (hforeign _), hread]
  simp only [Option.map_some, Option.bind_eq_bind, Option.bind_some, List.nil_append, htail]
  have hend : ∀ (value : Nat), UInt32.ofNat value = scope →
      ((readGivenChar ']' (']' :: ':' :: decimal port.toNat)).bind fun rest =>
        (readAfter ':' 65536 rest).bind fun got =>
          if h : (octetsOf segments).length = 16 then
            some (SocketAddr.v6 ⟨octetsOf segments, h⟩ (UInt32.ofNat value) (UInt16.ofNat got.1), got.2)
          else none) = some (.v6 ⟨octets, hlen⟩ scope port, []) := by
    intro value hvalue
    rw [readGivenChar, if_pos rfl, Option.bind_some, hport, Option.bind_some, dif_pos (by rw [hback]; exact hlen),
      hvalue, UInt16.ofNat_toNat]
    simp only [hback]
  by_cases hscope : scope = 0
  · rw [if_pos hscope, if_pos hscope, Option.getD_none]
    exact hend 0 hscope.symm
  · rw [if_neg hscope, if_neg hscope, Option.getD_some]
    exact hend scope.toNat UInt32.ofNat_toNat

/-- **A socket address reads back.** -/
theorem parseSocketAddr_show (addr : SocketAddr) : parseSocketAddr (showSocketAddr addr) = some addr := by
  cases addr with
  | v4 ip port => rw [parseSocketAddr, readSocketAddrV4_show, Option.some_or]
  | v6 ip scope port =>
    have hnone : readSocketAddrV4 (showSocketAddr (.v6 ip scope port)) = none := by
      have hquad : readIpv4 (showSocketAddr (.v6 ip scope port)) = none :=
        readIpv4_none (by
          show ('[' :: _).head? ≠ some '.'
          exact fun h => absurd (Option.some.inj h) (by decide))
      rw [readSocketAddrV4, hquad]
      rfl
    rw [parseSocketAddr, hnone, Option.none_or, readSocketAddrV6_show]

end Rdns.Lib
