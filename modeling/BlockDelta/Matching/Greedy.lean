import BlockDelta.Delta.Script
import BlockDelta.Matching.Index

/-!
# Matching a whole target

The window slides over the target one byte at a time until it matches a block,
then jumps behind the match. Bytes passed over become literals of bounded
length. Near the end of the target, where no whole block fits, the window
shrinks byte by byte, so a shorter last block can still match.
-/

namespace BlockDelta

/-- What can be chosen about matching. -/
structure MatchOptions where
  /-- The most bytes that one literal carries. -/
  maxLiteral : Nat := 32768
  /-- A literal may carry something. -/
  positive : 0 < maxLiteral := by decide

namespace Matching

/-- How far a target has been described. -/
structure Progress where
  /-- The deltas so far. -/
  script : Script
  /-- The number of the last block matched. -/
  last : Option UInt32
  /-- Where the window starts. -/
  position : Nat
  /-- The bytes passed over that no delta describes yet, newest first. -/
  pending : Bytes
  /-- How many bytes are pending. -/
  pendingLength : Nat

namespace Progress

/-- Nothing has been described. -/
def start : Progress := ⟨Script.empty, none, 0, [], 0⟩

/-- The pending bytes become a literal. -/
def flush (progress : Progress) : Progress :=
  match progress.pending with
  | [] => progress
  | _ :: _ =>
    let offset := UInt64.ofNat (progress.position - progress.pendingLength)
    { progress with
      script := progress.script.push (.literal offset progress.pending.reverse)
      pending := []
      pendingLength := 0 }

/-- The byte at the window's start is passed over. -/
def skip (maxLiteral : Nat) (progress : Progress) (byte : UInt8) : Progress :=
  let next : Progress :=
    { progress with
      position := progress.position + 1
      pending := byte :: progress.pending
      pendingLength := progress.pendingLength + 1 }
  if next.pendingLength = maxLiteral then next.flush else next

/-- The window is copied from a block. -/
def copy (progress : Progress) (block : Block) (length : Nat) : Progress :=
  let flushed := progress.flush
  { flushed with
    script := flushed.script.push
      (.copy block.offset (UInt64.ofNat flushed.position) (UInt32.ofNat length))
    last := some block.number
    position := flushed.position + length }

end Progress

/-- The sums after the window slid by one byte; summed afresh if they cannot slide. -/
def slide (sum : Rolling.Sum) (outgoing incoming : UInt8) (window : Unit → Bytes) : Rolling.Sum :=
  match sum.roll outgoing incoming with
  | .ok rolled => rolled
  | .error _ => Rolling.Sum.ofBytes (window ())

/-- The sums after the window lost its first byte; summed afresh if they cannot shrink. -/
def shrink (sum : Rolling.Sum) (outgoing : UInt8) (window : Unit → Bytes) : Rolling.Sum :=
  match sum.trim outgoing with
  | .ok trimmed => trimmed
  | .error _ => Rolling.Sum.ofBytes (window ())

/-- The rest of a target is described, from the window's start on. The window
has a known length and sum; `ahead` is the target behind the window. -/
def scan (index : BlockIndex) (maxLiteral : Nat) (progress : Progress) (sum : Rolling.Sum)
    (length : Nat) (rest ahead : Bytes) : Progress :=
  match rest with
  | [] => progress
  | byte :: later =>
    let window := fun _ => ((byte :: later).take length, [])
    match index.findWith? sum length window (BlockIndex.successor progress.last) with
    | some block =>
      let rest := later.drop (length - 1)
      let window := rest.take index.blockLength.toNat
      scan index maxLiteral (progress.copy block length) (Rolling.Sum.ofBytes window)
        window.length rest (rest.drop index.blockLength.toNat)
    | none =>
      match ahead with
      | next :: ahead =>
        scan index maxLiteral (progress.skip maxLiteral byte)
          (slide sum byte next fun _ => later.take length) length later ahead
      | [] =>
        scan index maxLiteral (progress.skip maxLiteral byte)
          (shrink sum byte fun _ => later.take (length - 1)) (length - 1) later []
termination_by rest.length
decreasing_by all_goals simp only [List.length_cons, List.length_drop]; omega

/-- The script that describes a target by the blocks of an index. -/
def greedy (index : BlockIndex) (options : MatchOptions) (target : Bytes) : Script :=
  let window := target.take index.blockLength.toNat
  let progress := scan index options.maxLiteral Progress.start (Rolling.Sum.ofBytes window)
    window.length target (target.drop index.blockLength.toNat)
  progress.flush.script

end Matching

end BlockDelta
