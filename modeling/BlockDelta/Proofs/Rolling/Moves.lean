import BlockDelta.Proofs.Rolling.Registers

/-!
# Sums of a window that moves

A window is extended by chunks, slides and shrinks, in any order. Kept up to
date from the byte that enters and the one that leaves, its sums are at any time
those of its content computed afresh, whether they are reduced with every byte
or kept in registers (`Keeping.Lawful`). Computed afresh they have a closed
form: the terms of the bytes in total, and the terms each counted once for every
byte from it to the end of the window.
-/

namespace BlockDelta.Rolling

/-- The terms of a window in total. -/
def total (window : Bytes) : Nat :=
  ∑ place : Fin window.length, ((window.get place).toNat + 31)

/-- The terms of a window in total, each counted once for every byte from it to the end. -/
def weightedTotal (window : Bytes) : Nat :=
  ∑ place : Fin window.length, (window.length - place) * ((window.get place).toNat + 31)

/-- The oldest byte adds its term. -/
theorem total_cons (byte : UInt8) (rest : Bytes) :
    total (byte :: rest) = byte.toNat + 31 + total rest :=
  Fin.sum_univ_succ _

/-- The oldest byte adds its term once for every byte of the window. -/
theorem weightedTotal_cons (byte : UInt8) (rest : Bytes) :
    weightedTotal (byte :: rest) =
      (rest.length + 1) * (byte.toNat + 31) + weightedTotal rest := by
  refine (Fin.sum_univ_succ _).trans (congrArg₂ (· + ·) rfl ?_)
  refine Finset.sum_congr rfl fun place _ => ?_
  have nearer : (byte :: rest).length - place.succ = rest.length - place := by
    rw [List.length_cons, Fin.val_succ]
    omega
  rw [nearer]
  rfl

namespace Sum

/-- The term of a byte is not reduced. -/
theorem toNat_term (byte : UInt8) : (term byte).toNat = byte.toNat + 31 := by
  have small := byte.toNat_lt
  rw [term, UInt16.toNat_add, UInt8.toNat_toUInt16]
  exact Nat.mod_eq_of_lt (by change byte.toNat + 31 < 2 ^ 16; omega)

/-- The first sum is the total of the terms. -/
theorem toNat_first_ofBytes (window : Bytes) :
    (ofBytes window).first.toNat = total window % 2 ^ 16 := by
  induction window with
  | nil => rfl
  | cons byte rest ih =>
    rw [first_cons, UInt16.toNat_add, ih, toNat_term, total_cons, Nat.add_mod_mod]

/-- The second sum is the weighted total of the terms. -/
theorem toNat_second_ofBytes (window : Bytes) :
    (ofBytes window).second.toNat = weightedTotal window % 2 ^ 16 := by
  induction window with
  | nil => rfl
  | cons byte rest ih =>
    rw [second_cons, UInt16.toNat_add, UInt16.toNat_mul, ih, toNat_term, weightedTotal_cons,
      Nat.add_mod_mod, Nat.mod_add_mod, UInt16.toNat_ofNat', Nat.add_mod, Nat.mod_mul_mod,
      ← Nat.add_mod]

end Sum

/-- How sums are kept for a window: computed afresh, extended by a chunk, slid and shrunk. -/
structure Keeping (Sums : Type) where
  /-- The sums of a window computed afresh. -/
  ofBytes : Bytes → Sums
  /-- The window is extended by a chunk. -/
  update : Sums → Bytes → Sums
  /-- The window slides: its oldest byte leaves and a new one enters. -/
  roll : Sums → UInt8 → UInt8 → Except Error Sums
  /-- The window loses its oldest byte. -/
  trim : Sums → UInt8 → Except Error Sums

/-- Sums that are reduced with every byte. -/
def Sum.keeping : Keeping Sum := ⟨ofBytes, update, roll, trim⟩

/-- Sums that are kept in registers. -/
def Registers.keeping : Keeping Registers := ⟨ofBytes, update, roll, trim⟩

/-- A change of a window. -/
inductive Move where
  /-- A chunk is added. -/
  | extend (chunk : Bytes)
  /-- The oldest byte leaves and a new one enters. -/
  | slide (next : UInt8)
  /-- The oldest byte leaves. -/
  | shrink

namespace Move

/-- A change of a window, oldest byte first; one that is empty, or whose length is no word of 32
bits, neither slides nor shrinks. -/
def onWindow : Move → Bytes → Bytes
  | .extend chunk, window => window ++ chunk
  | .slide next, oldest :: rest =>
    if rest.length < longestWindow then rest ++ [next] else oldest :: rest
  | .shrink, oldest :: rest => if rest.length < longestWindow then rest else oldest :: rest
  | _, [] => []

/-- A change of the sums of a window, from which its oldest byte leaves; a change that is refused
leaves them as they are. -/
def onSums {Sums : Type} (keeping : Keeping Sums) : Move → Bytes → Sums → Sums
  | .extend chunk, _, sums => keeping.update sums chunk
  | .slide next, oldest :: _, sums => (keeping.roll sums oldest next).toOption.getD sums
  | .shrink, oldest :: _, sums => (keeping.trim sums oldest).toOption.getD sums
  | _, [], sums => sums

end Move

/-- A window and its sums after changes. -/
def moveAll {Sums : Type} (keeping : Keeping Sums) : List Move → Bytes → Sums → Bytes × Sums
  | [], window, sums => (window, sums)
  | move :: rest, window, sums =>
    moveAll keeping rest (move.onWindow window) (move.onSums keeping window sums)

namespace Keeping

/-- Sums that are kept agree with sums computed afresh. -/
structure Lawful {Sums : Type} (keeping : Keeping Sums) : Prop where
  /-- A window that is extended. -/
  update : ∀ window chunk,
    keeping.update (keeping.ofBytes window) chunk = keeping.ofBytes (window ++ chunk)
  /-- A window that slides. -/
  roll : ∀ oldest rest next, rest.length < longestWindow →
    keeping.roll (keeping.ofBytes (oldest :: rest)) oldest next =
      .ok (keeping.ofBytes (rest ++ [next]))
  /-- A window that shrinks. -/
  trim : ∀ oldest rest, rest.length < longestWindow →
    keeping.trim (keeping.ofBytes (oldest :: rest)) oldest = .ok (keeping.ofBytes rest)
  /-- A window that is too long to do either. -/
  long : ∀ oldest rest, longestWindow ≤ rest.length →
    (∀ next, ∃ error, keeping.roll (keeping.ofBytes (oldest :: rest)) oldest next = .error error) ∧
      ∃ error, keeping.trim (keeping.ofBytes (oldest :: rest)) oldest = .error error

variable {Sums : Type} {keeping : Keeping Sums}

/-- Sums that agree with the window before a change agree with the one after it. -/
theorem Lawful.onSums (lawful : keeping.Lawful) (move : Move) (window : Bytes) :
    move.onSums keeping window (keeping.ofBytes window) =
      keeping.ofBytes (move.onWindow window) := by
  cases move with
  | extend chunk => exact lawful.update window chunk
  | slide next =>
    cases window with
    | nil => rfl
    | cons oldest rest =>
      rw [Move.onSums, Move.onWindow]
      split
      · rename_i fits
        rw [lawful.roll oldest rest next fits]
        rfl
      · rename_i long
        obtain ⟨error, refused⟩ := (lawful.long oldest rest (Nat.le_of_not_lt long)).1 next
        rw [refused]
        rfl
  | shrink =>
    cases window with
    | nil => rfl
    | cons oldest rest =>
      rw [Move.onSums, Move.onWindow]
      split
      · rename_i fits
        rw [lawful.trim oldest rest fits]
        rfl
      · rename_i long
        obtain ⟨error, refused⟩ := (lawful.long oldest rest (Nat.le_of_not_lt long)).2
        rw [refused]
        rfl

/-- Sums that agree with a window go on agreeing with it through any number of changes. -/
theorem Lawful.moveAll (lawful : keeping.Lawful) (moves : List Move) (window : Bytes) :
    let moved := moves.foldl (fun content move => move.onWindow content) window
    moveAll keeping moves window (keeping.ofBytes window) = (moved, keeping.ofBytes moved) := by
  induction moves generalizing window with
  | nil => rfl
  | cons move rest ih =>
    rw [Rolling.moveAll, lawful.onSums move window]
    exact ih (move.onWindow window)

/-- However a window is split into chunks, its sums are those of the whole. -/
theorem Lawful.foldl_update (lawful : keeping.Lawful) (chunks : List Bytes) (window : Bytes) :
    chunks.foldl keeping.update (keeping.ofBytes window) =
      keeping.ofBytes (window ++ chunks.flatten) := by
  induction chunks generalizing window with
  | nil => rw [List.foldl_nil, List.flatten_nil, List.append_nil]
  | cons chunk rest ih =>
    rw [List.foldl_cons, lawful.update, ih, List.flatten_cons, List.append_assoc]

end Keeping

/-- The length of a window that is too long is refused. -/
theorem Sum.checkedLength_of_long {window : Bytes} (long : longestWindow < window.length) :
    (ofBytes window).checkedLength = .error (.windowTooLarge window.length longestWindow) := by
  rw [checkedLength, length_ofBytes, if_neg (by omega), if_pos long]

/-- Sums that are reduced with every byte agree with sums computed afresh. -/
theorem Sum.lawful : Sum.keeping.Lawful where
  update window chunk := (update_append empty window chunk).symm
  roll oldest rest next fits := roll_ofBytes oldest next rest fits
  trim oldest rest fits := trim_ofBytes oldest rest fits
  long oldest rest long := by
    let cause := Error.windowTooLarge (oldest :: rest).length longestWindow
    have refused : (ofBytes (oldest :: rest)).checkedLength = .error cause :=
      checkedLength_of_long (Nat.lt_succ_of_le long)
    have rolled (next : UInt8) : (ofBytes (oldest :: rest)).roll oldest next = .error cause := by
      rw [roll, refused]
      rfl
    have trimmed : (ofBytes (oldest :: rest)).trim oldest = .error cause := by
      rw [trim, refused]
      rfl
    exact ⟨fun next => ⟨cause, rolled next⟩, cause, trimmed⟩

/-- Sums that are kept in registers agree with sums computed afresh. -/
theorem Registers.lawful : Registers.keeping.Lawful where
  update window chunk := by
    change (ofBytes window).update chunk = ofBytes (window ++ chunk)
    rw [ofBytes_eq_ofSum, update_ofSum, ofBytes_eq_ofSum]
    exact congrArg ofSum (Sum.lawful.update window chunk)
  roll oldest rest next fits := by
    change (ofBytes (oldest :: rest)).roll oldest next = .ok (ofBytes (rest ++ [next]))
    rw [ofBytes_eq_ofSum, ofBytes_eq_ofSum]
    exact roll_ofSum (Sum.lawful.roll oldest rest next fits)
  trim oldest rest fits := by
    change (ofBytes (oldest :: rest)).trim oldest = .ok (ofBytes rest)
    rw [ofBytes_eq_ofSum, ofBytes_eq_ofSum]
    exact trim_ofSum (Sum.lawful.trim oldest rest fits)
  long oldest rest long := by
    have tooLong : longestWindow < (oldest :: rest).length := Nat.lt_succ_of_le long
    have stays := refused_of_checkedLength (Sum.checkedLength_of_long tooLong) oldest
    rw [← ofBytes_eq_ofSum] at stays
    exact stays

/-- However a window is split into chunks, its sums are the totals of its terms modulo `2 ^ 16`,
also in registers, and a window that is not empty and not too long slides and shrinks into the sums
of what is left of it. So after any changes of a window its sums, and their value, are those of its
content computed afresh. -/
theorem moved_eq_fresh (chunks : List Bytes) (buffer : Bytes) (moves : List Move) :
    let window := chunks.flatten
    let registers := chunks.foldl Registers.update .empty
    let sum := chunks.foldl Sum.update .empty
    let moved := moves.foldl (fun content move => move.onWindow content) buffer
    (registers.first.toNat = total window % 2 ^ 16 ∧
      registers.second.toNat = weightedTotal window % 2 ^ 16 ∧
      registers.length = min window.length Registers.longest ∧
      registers = .ofSum sum ∧ sum.length = window.length) ∧
    (∀ oldest rest next, window = oldest :: rest → window.length ≤ longestWindow →
      (registers.roll oldest next = .ok (.ofBytes (rest ++ [next])) ∧
        registers.trim oldest = .ok (.ofBytes rest)) ∧
      sum.roll oldest next = .ok (.ofBytes (rest ++ [next])) ∧
        sum.trim oldest = .ok (.ofBytes rest)) ∧
    (moveAll Registers.keeping moves buffer (.ofBytes buffer) = (moved, .ofBytes moved) ∧
      moveAll Sum.keeping moves buffer (.ofBytes buffer) = (moved, .ofBytes moved) ∧
      (Registers.ofBytes moved).value = (Sum.ofBytes moved).value) := by
  intro window registers sum moved
  have summed : sum = .ofBytes window := Sum.lawful.foldl_update chunks []
  have filled : registers = .ofBytes window := Registers.lawful.foldl_update chunks []
  have held : registers = .ofSum (.ofBytes window) := filled.trans (Registers.ofBytes_eq_ofSum _)
  refine ⟨⟨?_, ?_, ?_, summed ▸ held, ?_⟩, ?_, Registers.lawful.moveAll moves buffer,
    Sum.lawful.moveAll moves buffer, ?_⟩
  · rw [held]
    exact (UInt16.toNat_toUInt32 _).trans (Sum.toNat_first_ofBytes window)
  · rw [held]
    exact (UInt16.toNat_toUInt32 _).trans (Sum.toNat_second_ofBytes window)
  · rw [held, Registers.ofSum, Sum.length_ofBytes]
  · rw [summed, Sum.length_ofBytes]
  · intro oldest rest next split fits
    rw [split] at filled summed fits
    rw [filled, summed]
    exact ⟨⟨Registers.lawful.roll oldest rest next fits, Registers.lawful.trim oldest rest fits⟩,
      Sum.lawful.roll oldest rest next fits, Sum.lawful.trim oldest rest fits⟩
  · rw [Registers.ofBytes_eq_ofSum, Registers.value_ofSum]

/-- Six bytes in two chunks, the first of which is longer than four; then a byte leaves for
another one. -/
theorem moved_eq_fresh_split :
    let registers := [[255, 255, 255, 255, 255], [7]].foldl Registers.update .empty
    [[255, 255, 255, 255, 255], [7]].flatten = 255 :: [255, 255, 255, 255, 7] ∧
      [255, 255, 255, 255, 255, 7].length ≤ longestWindow ∧
      registers = ⟨1468, 5758, 6⟩ ∧
      registers.roll 255 8 = .ok (.ofBytes [255, 255, 255, 255, 7, 8]) ∧
      moveAll Registers.keeping [.slide 8, .shrink, .extend [9]] [255, 7] (.ofBytes [255, 7]) =
        ([8, 9], .ofBytes [8, 9]) := by
  intro registers
  obtain ⟨-, further, moved, -⟩ := moved_eq_fresh [[255, 255, 255, 255, 255], [7]] [255, 7]
    [.slide 8, .shrink, .extend [9]]
  exact ⟨rfl, by decide, by decide, (further 255 [255, 255, 255, 255, 7] 8 rfl (by decide)).1.1,
    moved⟩

end BlockDelta.Rolling
