import BlockDelta.Strong.Absorber

/-!
# MD4

Three rounds of sixteen steps over blocks of sixteen words, words and length
written with their least significant byte first. The digest is the four words
of the state, so it is sixteen bytes wide by construction.
-/

namespace BlockDelta.Strong.Md4

/-- The four words of the state. -/
structure State where
  a : UInt32
  b : UInt32
  c : UInt32
  d : UInt32
  deriving DecidableEq, Repr

/-- One step: which input word it adds, and by how much it turns the sum. -/
structure Step where
  word : Nat
  turn : UInt32

/-- The steps of a round from its order of words and its four turns. -/
def steps (order : List Nat) (turns : List UInt32) : List Step :=
  order.zipWith Step.mk (turns ++ turns ++ turns ++ turns)

/-- The first round takes the words in order. -/
def firstRound : List Step :=
  steps [0, 1, 2, 3, 4, 5, 6, 7, 8, 9, 10, 11, 12, 13, 14, 15] [3, 7, 11, 19]

/-- The second round takes every fourth word. -/
def secondRound : List Step :=
  steps [0, 4, 8, 12, 1, 5, 9, 13, 2, 6, 10, 14, 3, 7, 11, 15] [3, 5, 9, 13]

/-- The third round takes the words in bit-reversed order. -/
def thirdRound : List Step :=
  steps [0, 8, 4, 12, 2, 10, 6, 14, 1, 9, 5, 13, 3, 11, 7, 15] [3, 9, 11, 15]

/-- A round: each step mixes three words into the fourth and shifts the roles on. -/
@[specialize] def round (mix : UInt32 → UInt32 → UInt32 → UInt32) (constant : UInt32)
    (block : Array UInt32) (plan : List Step) (state : State) : State :=
  plan.foldl
    (fun s step =>
      let sum := s.a + mix s.b s.c s.d + block.getD step.word 0 + constant
      ⟨s.d, rotate sum step.turn, s.b, s.c⟩)
    state

/-- A block of sixty-four bytes is folded into the state. -/
def compress (state : State) (bytes : Bytes) : State :=
  let block := (wordsReversed bytes).toArray
  let first := round (fun x y z => (x &&& y) ||| (~~~x &&& z)) 0 block firstRound state
  let second :=
    round (fun x y z => (x &&& y) ||| (x &&& z) ||| (y &&& z)) 0x5a827999 block secondRound first
  let third := round (fun x y z => x ^^^ y ^^^ z) 0x6ed9eba1 block thirdRound second
  ⟨state.a + third.a, state.b + third.b, state.c + third.c, state.d + third.d⟩

/-- The state before any input. -/
def start : Absorber State :=
  Absorber.start ⟨0x67452301, 0xefcdab89, 0x98badcfe, 0x10325476⟩

/-- A chunk is taken in. -/
def update (absorber : Absorber State) (chunk : Bytes) : Absorber State :=
  absorber.update 64 compress chunk

/-- The padded input's state, word by word. -/
def digest (absorber : Absorber State) : Bytes :=
  let length := Bytes.ofWordReversed 8 (absorber.total * 8)
  let final := (update absorber (lengthPadding absorber.total ++ length)).state
  Bytes.ofWordReversed 4 final.a.toNat ++ Bytes.ofWordReversed 4 final.b.toNat ++
    Bytes.ofWordReversed 4 final.c.toNat ++ Bytes.ofWordReversed 4 final.d.toNat

/-- A digest is sixteen bytes wide. -/
theorem length_digest (absorber : Absorber State) : (digest absorber).length = 16 := by
  simp [digest, Bytes.length_ofWordReversed]

instance : Digest (Absorber State) 16 where
  update := update
  digest := digest
  update_append := Absorber.update_append 64 compress
  length_digest := length_digest

end BlockDelta.Strong.Md4
