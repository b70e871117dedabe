import Rdns.Lib.Octets

/-!
# Rdns.Lib — Ed25519

The signature scheme of RFC 8032 §5.1 and the hash under it (FIPS 180-4, SHA-512), as
functions on octets, for developments that take a signature as a parameter and want one to
run with. Nothing is proved of them.
-/

namespace Rdns.Lib

/-! ## SHA-512 -/

def cubeRoot (n : Nat) (bits : Nat) : Nat :=
  (List.range bits).reverse.foldl (fun r b => if (r + 2 ^ b) ^ 3 ≤ n then r + 2 ^ b else r) 0

def primesBelow (n : Nat) : List Nat :=
  (List.range n).filter fun p => 2 ≤ p && (List.range p).all fun d => d < 2 || p % d ≠ 0

def sha512Constants : List UInt64 :=
  (primesBelow 410).map fun p => UInt64.ofNat (cubeRoot (p * 2 ^ 192) 68)

def sha512Initial : List UInt64 :=
  (primesBelow 20).map fun p => UInt64.ofNat (Nat.sqrt (p * 2 ^ 128))

def rotateRight64 (x : UInt64) (n : UInt64) : UInt64 := (x >>> n) ||| (x <<< (64 - n))

def littleEndian (octets : Octets) : Nat := octets.foldr (fun b n => n * 256 + b.toNat) 0

def bigEndian (octets : Octets) : Nat := octets.foldl (fun n b => n * 256 + b.toNat) 0

def littleEndianOctets (width n : Nat) : Octets :=
  (List.range width).map fun i => UInt8.ofNat (n / 256 ^ i)

def bigEndianOctets (width n : Nat) : Octets := (littleEndianOctets width n).reverse

def sha512Padded (message : Octets) : Octets :=
  message ++ [0x80] ++ List.replicate ((239 - message.length % 128) % 128) 0
    ++ bigEndianOctets 16 (message.length * 8)

def sha512Schedule (block : Octets) : List UInt64 :=
  let words := (List.range 16).map fun i => UInt64.ofNat (bigEndian ((block.drop (8 * i)).take 8))
  (List.range 64).foldl (fun w i =>
    let near := w.getD (i + 14) 0
    let far := w.getD (i + 1) 0
    w ++ [(rotateRight64 near 19 ^^^ rotateRight64 near 61 ^^^ (near >>> 6)) + w.getD (i + 9) 0
      + (rotateRight64 far 1 ^^^ rotateRight64 far 8 ^^^ (far >>> 7)) + w.getD i 0]) words

def sha512Round : List UInt64 → UInt64 × UInt64 → List UInt64
  | [a, b, c, d, e, f, g, h], (k, w) =>
    let t₁ := h + (rotateRight64 e 14 ^^^ rotateRight64 e 18 ^^^ rotateRight64 e 41)
      + ((e &&& f) ^^^ ((~~~ e) &&& g)) + k + w
    let t₂ := (rotateRight64 a 28 ^^^ rotateRight64 a 34 ^^^ rotateRight64 a 39)
      + ((a &&& b) ^^^ (a &&& c) ^^^ (b &&& c))
    [t₁ + t₂, a, b, c, d + t₁, e, f, g]
  | state, _ => state

def sha512Block (state : List UInt64) (block : Octets) : List UInt64 :=
  let rounds := (sha512Constants.zip (sha512Schedule block)).foldl sha512Round state
  (state.zip rounds).map fun (a, b) => a + b

def sha512 (message : Octets) : Octets :=
  let padded := sha512Padded message
  let state := (List.range (padded.length / 128)).foldl
    (fun state i => sha512Block state ((padded.drop (128 * i)).take 128)) sha512Initial
  state.flatMap fun word => bigEndianOctets 8 word.toNat

/-! ## The curve -/

namespace Ed25519

def FIELD : Nat := 2 ^ 255 - 19

def ORDER : Nat := 2 ^ 252 + 27742317777372353535851937790883648493

def powMod (base exponent modulus : Nat) : Nat :=
  (List.range 256).foldr (fun i acc =>
    let square := acc * acc % modulus
    if exponent.testBit i then square * base % modulus else square) 1

def inverse (x : Nat) : Nat := powMod x (FIELD - 2) FIELD

def D : Nat := (FIELD - 121665) * inverse 121666 % FIELD

structure Point where
  x : Nat
  y : Nat
  z : Nat
  t : Nat

def Point.add (p q : Point) : Point :=
  let a := (p.y + FIELD - p.x) * (q.y + FIELD - q.x) % FIELD
  let b := (p.y + p.x) * (q.y + q.x) % FIELD
  let c := 2 * p.t * q.t * D % FIELD
  let d := 2 * p.z * q.z % FIELD
  let e := b + FIELD - a
  let f := d + FIELD - c
  let g := d + c
  let h := b + a
  ⟨e * f % FIELD, g * h % FIELD, f * g % FIELD, e * h % FIELD⟩

def Point.mul (k : Nat) (p : Point) : Point :=
  (List.range 256).foldr (fun i acc =>
    let double := acc.add acc
    if k.testBit i then double.add p else double) ⟨0, 1, 1, 0⟩

def basePoint : Point :=
  let x := 15112221349535400772501151409588531511454012693041857206046113283949847762202
  let y := 4 * inverse 5 % FIELD
  ⟨x, y, 1, x * y % FIELD⟩

def Point.compress (p : Point) : Octets :=
  let scale := inverse p.z
  littleEndianOctets 32 (p.y * scale % FIELD + p.x * scale % FIELD % 2 * 2 ^ 255)

def expand (secret : Octets) : Nat × Octets :=
  let hash := sha512 secret
  let low := littleEndian (hash.take 32) % 2 ^ 255
  (low - low % 8 + (if low.testBit 254 then 0 else 2 ^ 254), hash.drop 32)

def publicKey (secret : Octets) : Octets := (basePoint.mul (expand secret).1).compress

def sign (secret message : Octets) : Octets :=
  let (scalar, nonceKey) := expand secret
  let r := littleEndian (sha512 (nonceKey ++ message)) % ORDER
  let commitment := (basePoint.mul r).compress
  let challenge := littleEndian (sha512 (commitment ++ publicKey secret ++ message)) % ORDER
  commitment ++ littleEndianOctets 32 ((r + challenge * scalar) % ORDER)

end Ed25519

end Rdns.Lib
