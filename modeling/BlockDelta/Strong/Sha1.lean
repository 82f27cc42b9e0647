import BlockDelta.Strong.Absorber

/-!
# SHA-1

Eighty steps over a schedule grown from the sixteen words of a block, words and
length written with their most significant byte first. The digest is the five
words of the state, so it is twenty bytes wide by construction.
-/

namespace BlockDelta.Strong.Sha1

/-- The five words of the state. -/
structure State where
  a : UInt32
  b : UInt32
  c : UInt32
  d : UInt32
  e : UInt32
  deriving DecidableEq, Repr

/-- The schedule is extended by words that combine four earlier ones. -/
def extend : Nat → Array UInt32 → Array UInt32
  | 0, schedule => schedule
  | count + 1, schedule =>
    let size := schedule.size
    let mixed := schedule.getD (size - 3) 0 ^^^ schedule.getD (size - 8) 0 ^^^
      schedule.getD (size - 14) 0 ^^^ schedule.getD (size - 16) 0
    extend count (schedule.push (rotate mixed 1))

/-- How step `index` mixes three words, and the constant it adds. -/
def mix (index : Nat) (x y z : UInt32) : UInt32 :=
  if index < 20 then ((x &&& y) ||| (~~~x &&& z)) + 0x5a827999
  else if index < 40 then (x ^^^ y ^^^ z) + 0x6ed9eba1
  else if index < 60 then ((x &&& y) ||| (x &&& z) ||| (y &&& z)) + 0x8f1bbcdc
  else (x ^^^ y ^^^ z) + 0xca62c1d6

/-- A block of sixty-four bytes is folded into the state. -/
def compress (state : State) (bytes : Bytes) : State :=
  let schedule := extend 64 (words bytes).toArray
  let final := (List.range 80).foldl
    (fun s index =>
      let sum := rotate s.a 5 + mix index s.b s.c s.d + s.e + schedule.getD index 0
      State.mk sum s.a (rotate s.b 30) s.c s.d)
    state
  ⟨state.a + final.a, state.b + final.b, state.c + final.c, state.d + final.d, state.e + final.e⟩

/-- The state before any input. -/
def start : Absorber State :=
  Absorber.start ⟨0x67452301, 0xefcdab89, 0x98badcfe, 0x10325476, 0xc3d2e1f0⟩

/-- A chunk is taken in. -/
def update (absorber : Absorber State) (chunk : Bytes) : Absorber State :=
  absorber.update 64 compress chunk

/-- The padded input's state, word by word. -/
def digest (absorber : Absorber State) : Bytes :=
  let length := Bytes.ofWord 8 (absorber.total * 8)
  let final := (update absorber (lengthPadding absorber.total ++ length)).state
  Bytes.ofWord 4 final.a.toNat ++ Bytes.ofWord 4 final.b.toNat ++ Bytes.ofWord 4 final.c.toNat ++
    Bytes.ofWord 4 final.d.toNat ++ Bytes.ofWord 4 final.e.toNat

/-- A digest is twenty bytes wide. -/
theorem length_digest (absorber : Absorber State) : (digest absorber).length = 20 := by
  simp [digest, Bytes.length_ofWord]

instance : Digest (Absorber State) 20 where
  update := update
  digest := digest
  update_append := Absorber.update_append 64 compress
  length_digest := length_digest

end BlockDelta.Strong.Sha1
