import ProceduralScene.Number.Binary

/-!
A reproducible stream of numbers of the unit interval. The seed, an integer of any size, is hashed into a pool of
four words, from which the state and the increment of a 128-bit linear congruential generator are drawn; each
output permutes the state down to 64 bits.
-/

set_option autoImplicit false

namespace ProceduralScene.Number

namespace SeedPool

/-- The words of an integer, the lowest first; zero has one word. The first argument bounds their number. -/
def wordsWithin : Nat → Nat → List UInt32
  | 0, _ => []
  | fuel + 1, n =>
    if n < twoTo 32 then [UInt32.ofNat n] else UInt32.ofNat (n % twoTo 32) :: wordsWithin fuel (n / twoTo 32)

def words (n : Nat) : List UInt32 := wordsWithin (Nat.log2 n + 1) n

def foldDown (x : UInt32) : UInt32 := x ^^^ (x >>> 16)

/-- Hashes a word; the hash constant changes with every use. -/
def hash (constant : UInt32) (factor word : UInt32) : UInt32 × UInt32 :=
  let next := constant * factor
  (foldDown ((word ^^^ constant) * next), next)

def mix (x y : UInt32) : UInt32 :=
  foldDown (0xca01f9dd * x - 0x4973f715 * y)

/-- A pool of words with the hash constant that comes next. -/
structure Pool where
  words : Array UInt32
  constant : UInt32

def hashInto (pool : Pool) (word : UInt32) : UInt32 × Pool :=
  let (hashed, constant) := hash pool.constant 0x931e8875 word
  (hashed, { pool with constant := constant })

def fill (pool : Pool) (word : UInt32) : Pool :=
  let (hashed, pool) := hashInto pool word
  { pool with words := pool.words.push hashed }

def stir (pool : Pool) (target : Nat) (word : UInt32) : Pool :=
  let (hashed, pool) := hashInto pool word
  { pool with words := pool.words.modify target fun old => mix old hashed }

/-- Stirs every word of the pool into the others. -/
def stirAll (pool : Pool) : Pool :=
  (List.range 4).foldl (fun pool source =>
    (List.range 4).foldl (fun pool target =>
      if source == target then pool else stir pool target (pool.words.getD source 0)) pool) pool

/-- The pool that a seed is hashed into. -/
def ofSeed (seed : Nat) : Pool :=
  let entropy := words seed
  let filled := (List.range 4).foldl (fun pool i => fill pool (entropy.getD i 0)) ⟨#[], 0x43b0d7e5⟩
  (entropy.drop 4).foldl (fun pool word => (List.range 4).foldl (fun pool target => stir pool target word) pool)
    (stirAll filled)

/-- Eight words drawn from the pool in turn. -/
def draw (pool : Pool) : List UInt32 :=
  ((List.range 8).foldl (fun (state : List UInt32 × UInt32) i =>
    let (hashed, constant) := hash state.2 0x58f38ded (pool.words.getD (i % 4) 0)
    (state.1 ++ [hashed], constant)) ([], 0x8b51f9dd)).1

/-- Two words as one of 64 bits, the lower one first. -/
def join (low high : UInt32) : Nat := low.toNat + high.toNat * twoTo 32

end SeedPool

/-- A generator between two outputs. -/
structure RandomStream where
  state : Nat
  increment : Nat

namespace RandomStream

def modulus : Nat := twoTo 128

def multiplier : Nat := 0x2360ed051fc65da44385df649fccf645

def step (stream : RandomStream) : RandomStream :=
  { stream with state := (stream.state * multiplier + stream.increment) % modulus }

def ofSeed (seed : Nat) : RandomStream :=
  match SeedPool.draw (SeedPool.ofSeed seed) with
  | [a, b, c, d, e, f, g, h] =>
    let start := SeedPool.join a b * twoTo 64 + SeedPool.join c d
    let sequence := SeedPool.join e f * twoTo 64 + SeedPool.join g h
    let stream := step ⟨0, (2 * sequence + 1) % modulus⟩
    step { stream with state := (stream.state + start) % modulus }
  | _ => ⟨0, 1⟩

/-- The output of a state: its halves combined and rotated by its topmost bits. -/
def output (state : Nat) : Nat :=
  let word := Nat.xor (state / twoTo 64) (state % twoTo 64)
  let turn := state / twoTo 122
  (word / twoTo turn + word * twoTo (64 - turn)) % twoTo 64

/-- A number of the unit interval with 53 random bits. -/
def next (stream : RandomStream) : Float × RandomStream :=
  let stream := stream.step
  (Float.ofNat (output stream.state / twoTo 11) / 9007199254740992.0, stream)

def take : Nat → RandomStream → List Float
  | 0, _ => []
  | count + 1, stream =>
    let (x, stream) := stream.next
    x :: take count stream

end RandomStream

end ProceduralScene.Number
