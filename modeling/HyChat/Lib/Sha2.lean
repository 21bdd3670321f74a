import Mathlib.Data.List.Basic

/-!
# SHA-256

The digest, computed word by word on bit vectors and written out in hexadecimal digits. Every
loop is a recursion on a list or on a counter, so a digest can be evaluated in a proof.
-/

set_option autoImplicit false

namespace HyChat.Lib.Sha2

abbrev Word := BitVec 32

def roundConstants : List Word :=
  [0x428a2f98, 0x71374491, 0xb5c0fbcf, 0xe9b5dba5, 0x3956c25b, 0x59f111f1, 0x923f82a4, 0xab1c5ed5,
   0xd807aa98, 0x12835b01, 0x243185be, 0x550c7dc3, 0x72be5d74, 0x80deb1fe, 0x9bdc06a7, 0xc19bf174,
   0xe49b69c1, 0xefbe4786, 0x0fc19dc6, 0x240ca1cc, 0x2de92c6f, 0x4a7484aa, 0x5cb0a9dc, 0x76f988da,
   0x983e5152, 0xa831c66d, 0xb00327c8, 0xbf597fc7, 0xc6e00bf3, 0xd5a79147, 0x06ca6351, 0x14292967,
   0x27b70a85, 0x2e1b2138, 0x4d2c6dfc, 0x53380d13, 0x650a7354, 0x766a0abb, 0x81c2c92e, 0x92722c85,
   0xa2bfe8a1, 0xa81a664b, 0xc24b8b70, 0xc76c51a3, 0xd192e819, 0xd6990624, 0xf40e3585, 0x106aa070,
   0x19a4c116, 0x1e376c08, 0x2748774c, 0x34b0bcb5, 0x391c0cb3, 0x4ed8aa4a, 0x5b9cca4f, 0x682e6ff3,
   0x748f82ee, 0x78a5636f, 0x84c87814, 0x8cc70208, 0x90befffa, 0xa4506ceb, 0xbef9a3f7, 0xc67178f2]

structure State where
  a : Word
  b : Word
  c : Word
  d : Word
  e : Word
  f : Word
  g : Word
  h : Word

def State.initial : State :=
  ⟨0x6a09e667, 0xbb67ae85, 0x3c6ef372, 0xa54ff53a, 0x510e527f, 0x9b05688c, 0x1f83d9ab, 0x5be0cd19⟩

def State.add (s t : State) : State :=
  ⟨s.a + t.a, s.b + t.b, s.c + t.c, s.d + t.d, s.e + t.e, s.f + t.f, s.g + t.g, s.h + t.h⟩

def smallSigma0 (w : Word) : Word := w.rotateRight 7 ^^^ w.rotateRight 18 ^^^ (w >>> 3)

def smallSigma1 (w : Word) : Word := w.rotateRight 17 ^^^ w.rotateRight 19 ^^^ (w >>> 10)

def bigSigma0 (w : Word) : Word := w.rotateRight 2 ^^^ w.rotateRight 13 ^^^ w.rotateRight 22

def bigSigma1 (w : Word) : Word := w.rotateRight 6 ^^^ w.rotateRight 11 ^^^ w.rotateRight 25

/-- One round, with the word of the schedule and the constant of the round. -/
def round (s : State) (w k : Word) : State :=
  let t₁ := s.h + bigSigma1 s.e + ((s.e &&& s.f) ^^^ (~~~s.e &&& s.g)) + k + w
  let t₂ := bigSigma0 s.a + ((s.a &&& s.b) ^^^ (s.a &&& s.c) ^^^ (s.b &&& s.c))
  ⟨t₁ + t₂, s.a, s.b, s.c, s.d + t₁, s.e, s.f, s.g⟩

/-- The first `n` words of the message schedule that begins with the sixteen words given. -/
def schedule : Nat → List Word → List Word
  | 0, _ => []
  | _ + 1, [] => []
  | n + 1, w :: ws =>
      w :: schedule n (ws ++ [smallSigma1 (ws.getD 13 0) + ws.getD 8 0 +
        smallSigma0 (ws.getD 0 0) + w])

def rounds : State → List Word → List Word → State
  | s, w :: ws, k :: ks => rounds (round s w k) ws ks
  | s, _, _ => s

/-- One block of sixteen words. -/
def compress (s : State) (block : List Word) : State :=
  s.add (rounds s (schedule 64 block) roundConstants)

/-- The words of a list of bytes, the most significant byte first. -/
def words : List Nat → List Word
  | b₀ :: b₁ :: b₂ :: b₃ :: bs =>
      BitVec.ofNat 32 (((b₀ * 256 + b₁) * 256 + b₂) * 256 + b₃) :: words bs
  | _ => []

/-- What follows a message of `n` bytes: one bit, zeros, and its length in bits. -/
def padding (n : Nat) : List Nat :=
  0x80 :: List.replicate ((119 - n % 64) % 64) 0 ++
    (List.range 8).map fun k => (8 * n) >>> (8 * (7 - k)) % 256

/-- All blocks in turn; there are at most `n` of them. -/
def compressAll : Nat → State → List Word → State
  | 0, s, _ => s
  | _ + 1, s, [] => s
  | n + 1, s, w :: ws => compressAll n (compress s ((w :: ws).take 16)) ((w :: ws).drop 16)

def digest (message : List Nat) : State :=
  let ws := words (message ++ padding message.length)
  compressAll ws.length .initial ws

def State.words (s : State) : List Word := [s.a, s.b, s.c, s.d, s.e, s.f, s.g, s.h]

def hexWord (w : Word) : List Char :=
  (List.range 8).map fun k => Nat.digitChar ((w.toNat >>> (4 * (7 - k))) % 16)

/-- The digest of a text's UTF-8 encoding, in lower case hexadecimal digits. -/
def hexdigest (text : String) : String :=
  String.ofList ((digest ((text.toList.flatMap String.utf8EncodeChar).map UInt8.toNat)).words.flatMap
    hexWord)

theorem length_hexdigest (text : String) : (hexdigest text).length = 64 := by
  simp [hexdigest, State.words, hexWord]

example : hexdigest "abc" = "ba7816bf8f01cfea414140de5dae2223b00361a396177a9cb410ff61f20015ad" := by
  decide +kernel

end HyChat.Lib.Sha2
