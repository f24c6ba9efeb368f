import Keyring.Bytes

namespace Keyring.Hash

/-- Adds to `found` the powers of two below `2 ^ bits` that keep its `k`-th power at most `n`. -/
def rootFrom (k n : Nat) : Nat → Nat → Nat
  | 0, found => found
  | bits + 1, found =>
      rootFrom k n bits
        (if Nat.pow (found + Nat.pow 2 bits) k ≤ n then found + Nat.pow 2 bits else found)

def rootPlaces (k n width : Nat) : Nat :=
  rootFrom k (n * Nat.pow 2 (k * width)) (width + 6) 0 % Nat.pow 2 width

def isPrime (n : Nat) : Bool :=
  2 ≤ n && (List.range n).all fun d => d < 2 || n % d != 0

def primes : List Nat := (List.range 410).filter isPrime

/-- What tells the members of the SHA-2 family apart: the word, the rounds of a block, and the
distances of rotations and shifts. -/
structure Family (W : Type) where
  width : Nat
  rounds : Nat
  ofNat : Nat → W
  toNat : W → Nat
  big0 : W × W × W
  big1 : W × W × W
  small0 : W × W × W
  small1 : W × W × W
  constants : Array W
  initial : Array W

structure Chain (W : Type) where
  (a b c d e f g h : W)

namespace Family

variable {W : Type} [Add W] [XorOp W] [OrOp W] [AndOp W] [ShiftLeft W] [ShiftRight W]
  [Complement W] [Inhabited W]

@[specialize]
def turn (F : Family W) (x n : W) : W := (x >>> n) ||| (x <<< F.ofNat (F.width - F.toNat n))

@[specialize]
def mix (F : Family W) (x : W) (places : W × W × W) : W :=
  F.turn x places.1 ^^^ F.turn x places.2.1 ^^^ F.turn x places.2.2

@[specialize]
def mixShift (F : Family W) (x : W) (places : W × W × W) : W :=
  F.turn x places.1 ^^^ F.turn x places.2.1 ^^^ (x >>> places.2.2)

@[specialize]
def schedule (F : Family W) (block : Array W) : Array W :=
  (List.range (F.rounds - 16)).foldl (fun words t =>
    words.push (F.mixShift words[t + 14]! F.small1 + words[t + 9]! +
      F.mixShift words[t + 1]! F.small0 + words[t]!)) block

@[specialize]
def round (F : Family W) (s : Chain W) (k w : W) : Chain W :=
  let choice := (s.e &&& s.f) ^^^ (~~~s.e &&& s.g)
  let majority := (s.a &&& s.b) ^^^ (s.a &&& s.c) ^^^ (s.b &&& s.c)
  let t := s.h + F.mix s.e F.big1 + choice + k + w
  ⟨t + F.mix s.a F.big0 + majority, s.a, s.b, s.c, s.d + t, s.e, s.f, s.g⟩

@[specialize]
def compress (F : Family W) (s : Chain W) (block : Array W) : Chain W :=
  let words := F.schedule block
  let r := (List.range F.rounds).foldl (fun r t => F.round r F.constants[t]! words[t]!) s
  ⟨s.a + r.a, s.b + r.b, s.c + r.c, s.d + r.d, s.e + r.e, s.f + r.f, s.g + r.g, s.h + r.h⟩

def wordBytes (F : Family W) : Nat := F.width / 8

/-- The message, a one bit, zeros, and its length in bits, in whole blocks of sixteen words. -/
def padded (F : Family W) (message : Bytes) : Bytes :=
  let block := 16 * F.wordBytes
  let used := message.length + 1 + 2 * F.wordBytes
  message ++ 0x80 :: List.replicate ((block - used % block) % block) 0 ++
    Bytes.ofNatBE (2 * F.wordBytes) (8 * message.length)

@[specialize]
def blockAt (F : Family W) (octets : Array UInt8) (number : Nat) : Array W :=
  Array.ofFn fun i : Fin 16 =>
    let start := (16 * number + i.val) * F.wordBytes
    F.ofNat ((List.range F.wordBytes).foldl (fun n j => n * 256 + octets[start + j]!.toNat) 0)

def start (F : Family W) : Chain W :=
  let word (i : Nat) : W := F.initial[i]!
  ⟨word 0, word 1, word 2, word 3, word 4, word 5, word 6, word 7⟩

def digest (F : Family W) (s : Chain W) : Bytes :=
  [s.a, s.b, s.c, s.d, s.e, s.f, s.g, s.h].flatMap fun w => Bytes.ofNatBE F.wordBytes (F.toNat w)

@[specialize]
def hash (F : Family W) (message : Bytes) : Bytes :=
  let octets := (F.padded message).toArray
  let blocks := octets.size / (16 * F.wordBytes)
  F.digest ((List.range blocks).foldl (fun s n => F.compress s (F.blockAt octets n)) F.start)

theorem length_hash (F : Family W) (message : Bytes) :
    (F.hash message).length = 8 * F.wordBytes := by
  simp only [hash, digest, List.flatMap_cons, List.flatMap_nil, List.length_append,
    Bytes.length_ofNatBE, List.length_nil]
  omega

end Family

def sha256Family : Family UInt32 where
  width := 32
  rounds := 64
  ofNat := UInt32.ofNat
  toNat := UInt32.toNat
  big0 := (2, 13, 22)
  big1 := (6, 11, 25)
  small0 := (7, 18, 3)
  small1 := (17, 19, 10)
  constants := (primes.map fun p => UInt32.ofNat (rootPlaces 3 p 32)).toArray
  initial := ((primes.take 8).map fun p => UInt32.ofNat (rootPlaces 2 p 32)).toArray

def sha512Family : Family UInt64 where
  width := 64
  rounds := 80
  ofNat := UInt64.ofNat
  toNat := UInt64.toNat
  big0 := (28, 34, 39)
  big1 := (14, 18, 41)
  small0 := (1, 8, 7)
  small1 := (19, 61, 6)
  constants := (primes.map fun p => UInt64.ofNat (rootPlaces 3 p 64)).toArray
  initial := ((primes.take 8).map fun p => UInt64.ofNat (rootPlaces 2 p 64)).toArray

def sha256 (message : Bytes) : Bytes := sha256Family.hash message

def sha512 (message : Bytes) : Bytes := sha512Family.hash message

theorem length_sha256 (message : Bytes) : (sha256 message).length = 32 :=
  Family.length_hash sha256Family message

theorem length_sha512 (message : Bytes) : (sha512 message).length = 64 :=
  Family.length_hash sha512Family message

end Keyring.Hash
