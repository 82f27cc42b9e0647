import BlockDelta.Strong.Absorber

/-!
# MD5

Four rounds of sixteen steps over blocks of sixteen words, words and length
written with their least significant byte first. The digest is the four words
of the state, so it is sixteen bytes wide by construction.
-/

namespace BlockDelta.Strong.Md5

/-- The four words of the state. -/
structure State where
  a : UInt32
  b : UInt32
  c : UInt32
  d : UInt32
  deriving DecidableEq, Repr

/-- One step: the word it adds, its constant, and by how much it turns the sum. -/
structure Step where
  word : Nat
  constant : UInt32
  turn : UInt32

/-- The additive constants: the size of the sine of each step number, scaled to a word. -/
def constants : List UInt32 :=
  [0xd76aa478, 0xe8c7b756, 0x242070db, 0xc1bdceee,
    0xf57c0faf, 0x4787c62a, 0xa8304613, 0xfd469501,
    0x698098d8, 0x8b44f7af, 0xffff5bb1, 0x895cd7be,
    0x6b901122, 0xfd987193, 0xa679438e, 0x49b40821,
    0xf61e2562, 0xc040b340, 0x265e5a51, 0xe9b6c7aa,
    0xd62f105d, 0x02441453, 0xd8a1e681, 0xe7d3fbc8,
    0x21e1cde6, 0xc33707d6, 0xf4d50d87, 0x455a14ed,
    0xa9e3e905, 0xfcefa3f8, 0x676f02d9, 0x8d2a4c8a,
    0xfffa3942, 0x8771f681, 0x6d9d6122, 0xfde5380c,
    0xa4beea44, 0x4bdecfa9, 0xf6bb4b60, 0xbebfbc70,
    0x289b7ec6, 0xeaa127fa, 0xd4ef3085, 0x04881d05,
    0xd9d4d039, 0xe6db99e5, 0x1fa27cf8, 0xc4ac5665,
    0xf4292244, 0x432aff97, 0xab9423a7, 0xfc93a039,
    0x655b59c3, 0x8f0ccc92, 0xffeff47d, 0x85845dd1,
    0x6fa87e4f, 0xfe2ce6e0, 0xa3014314, 0x4e0811a1,
    0xf7537e82, 0xbd3af235, 0x2ad7d2bb, 0xeb86d391]

/-- The steps of a round: word `factor * i + shift`, the round's constants and its four turns. -/
def steps (number factor shift : Nat) (turns : List UInt32) : List Step :=
  ((List.range 16).zip (turns ++ turns ++ turns ++ turns)).map fun (i, turn) =>
    ⟨(factor * i + shift) % 16, constants.getD (16 * number + i) 0, turn⟩

/-- The first round takes the words in order. -/
def firstRound : List Step := steps 0 1 0 [7, 12, 17, 22]

/-- The second round takes every fifth word. -/
def secondRound : List Step := steps 1 5 1 [5, 9, 14, 20]

/-- The third round takes every third word. -/
def thirdRound : List Step := steps 2 3 5 [4, 11, 16, 23]

/-- The fourth round takes every seventh word. -/
def fourthRound : List Step := steps 3 7 0 [6, 10, 15, 21]

/-- A round: each step mixes three words into the fourth and shifts the roles on. -/
@[specialize] def round (mix : UInt32 → UInt32 → UInt32 → UInt32) (block : Array UInt32)
    (plan : List Step) (state : State) : State :=
  plan.foldl
    (fun s step =>
      let sum := s.a + mix s.b s.c s.d + block.getD step.word 0 + step.constant
      ⟨s.d, s.b + rotate sum step.turn, s.b, s.c⟩)
    state

/-- A block of sixty-four bytes is folded into the state. -/
def compress (state : State) (bytes : Bytes) : State :=
  let block := (wordsReversed bytes).toArray
  let first := round (fun x y z => (x &&& y) ||| (~~~x &&& z)) block firstRound state
  let second := round (fun x y z => (x &&& z) ||| (y &&& ~~~z)) block secondRound first
  let third := round (fun x y z => x ^^^ y ^^^ z) block thirdRound second
  let fourth := round (fun x y z => y ^^^ (x ||| ~~~z)) block fourthRound third
  ⟨state.a + fourth.a, state.b + fourth.b, state.c + fourth.c, state.d + fourth.d⟩

/-- The state before any input. -/
def start : Absorber State :=
  Absorber.start ⟨0x67452301, 0xefcdab89, 0x98badcfe, 0x10325476⟩

/-- A chunk is taken in. -/
def update (absorber : Absorber State) (chunk : Bytes) : Absorber State :=
  absorber.update 64 compress chunk

/-- The padded input's state, word by word. -/
def digest (absorber : Absorber State) : Bytes :=
  let length := Bytes.ofWordReversed 8 (absorber.total * 8)
  let final := (update absorber (lengthPadding absorber.total ++ length)).state
  Bytes.ofWordReversed 4 final.a.toNat ++ Bytes.ofWordReversed 4 final.b.toNat ++
    Bytes.ofWordReversed 4 final.c.toNat ++ Bytes.ofWordReversed 4 final.d.toNat

/-- A digest is sixteen bytes wide. -/
theorem length_digest (absorber : Absorber State) : (digest absorber).length = 16 := by
  simp [digest, Bytes.length_ofWordReversed]

instance : Digest (Absorber State) 16 where
  update := update
  digest := digest
  update_append := Absorber.update_append 64 compress
  length_digest := length_digest

end BlockDelta.Strong.Md5
