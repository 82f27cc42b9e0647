import BlockDelta.Strong.Absorber

/-!
# XXH64

Four lanes over stripes of thirty-two bytes, then the bytes behind the last
stripe and a final avalanche. Seeded; the digest is one 64-bit word written
with its least significant byte first, so it is eight bytes wide.
-/

namespace BlockDelta.Strong.Xxh64

/-- The multipliers of the hash. -/
def prime1 : UInt64 := 0x9e3779b185ebca87

/-- The second multiplier. -/
def prime2 : UInt64 := 0xc2b2ae3d27d4eb4f

/-- The third multiplier. -/
def prime3 : UInt64 := 0x165667b19e3779f9

/-- The fourth multiplier. -/
def prime4 : UInt64 := 0x85ebca77c2b2ae63

/-- The fifth multiplier. -/
def prime5 : UInt64 := 0x27d4eb2f165667c5

/-- The four lanes and the seed they started from. -/
structure State where
  seed : UInt64
  lane1 : UInt64
  lane2 : UInt64
  lane3 : UInt64
  lane4 : UInt64
  deriving DecidableEq, Repr

/-- The bits of a word are turned toward the high end. -/
def rotate (word : UInt64) (count : UInt64) : UInt64 :=
  (word <<< count) ||| (word >>> (64 - count))

/-- A word of input is folded into a lane. -/
def round (lane input : UInt64) : UInt64 := rotate (lane + input * prime2) 31 * prime1

/-- A lane is folded into the result. -/
def merge (result lane : UInt64) : UInt64 := (result ^^^ round 0 lane) * prime1 + prime4

/-- Eight bytes as a word, least significant first. -/
def word (bytes : Bytes) : UInt64 := UInt64.ofNat (Bytes.toWordReversed (bytes.take 8))

/-- A stripe of thirty-two bytes is folded into the lanes. -/
def compress (state : State) (stripe : Bytes) : State :=
  { state with
    lane1 := round state.lane1 (word stripe)
    lane2 := round state.lane2 (word (stripe.drop 8))
    lane3 := round state.lane3 (word (stripe.drop 16))
    lane4 := round state.lane4 (word (stripe.drop 24)) }

/-- The state of a seed before any input. -/
def start (seed : UInt64) : Absorber State :=
  Absorber.start ⟨seed, seed + prime1 + prime2, seed + prime2, seed, seed - prime1⟩

/-- A chunk is taken in. -/
def update (absorber : Absorber State) (chunk : Bytes) : Absorber State :=
  absorber.update 32 compress chunk

/-- The lanes joined; inputs shorter than a stripe start from the seed alone. -/
def join (absorber : Absorber State) : UInt64 :=
  let state := absorber.state
  if absorber.total < 32 then state.seed + prime5
  else
    let sum := rotate state.lane1 1 + rotate state.lane2 7 + rotate state.lane3 12 +
      rotate state.lane4 18
    merge (merge (merge (merge sum state.lane1) state.lane2) state.lane3) state.lane4

/-- The last bytes one by one. -/
def foldBytes (result : UInt64) (bytes : Bytes) : UInt64 :=
  bytes.foldl (fun result byte => rotate (result ^^^ (byte.toUInt64 * prime5)) 11 * prime1) result

/-- The bytes behind the last stripe: words of eight, then one of four, then bytes. -/
def foldRest : UInt64 → Bytes → UInt64
  | result, a :: b :: c :: d :: e :: f :: g :: h :: rest =>
    let mixed := result ^^^ round 0 (word [a, b, c, d, e, f, g, h])
    foldRest (rotate mixed 27 * prime1 + prime4) rest
  | result, a :: b :: c :: d :: rest =>
    let input := UInt64.ofNat (Bytes.toWordReversed [a, b, c, d])
    foldBytes (rotate (result ^^^ (input * prime1)) 23 * prime2 + prime3) rest
  | result, rest => foldBytes result rest

/-- Every bit of the result is spread over the whole word. -/
def avalanche (result : UInt64) : UInt64 :=
  let first := (result ^^^ (result >>> 33)) * prime2
  let second := (first ^^^ (first >>> 29)) * prime3
  second ^^^ (second >>> 32)

/-- The hash of everything taken in, as a word. -/
def hash (absorber : Absorber State) : UInt64 :=
  avalanche (foldRest (join absorber + UInt64.ofNat absorber.total) absorber.pending.reverse)

/-- The hash as bytes. -/
def digest (absorber : Absorber State) : Bytes :=
  Bytes.ofWordReversed 8 (hash absorber).toNat

/-- A digest is eight bytes wide. -/
theorem length_digest (absorber : Absorber State) : (digest absorber).length = 8 := by
  simp [digest, Bytes.length_ofWordReversed]

instance : Digest (Absorber State) 8 where
  update := update
  digest := digest
  update_append := Absorber.update_append 32 compress
  length_digest := length_digest

end BlockDelta.Strong.Xxh64
