import BlockDelta.Matching.Session
import BlockDelta.Proofs.Delta.Coalescing

/-!
# Telling listeners

Deltas go to all listeners one after the other. The world that the listeners
leave does not depend on failures noted before, and those stay behind the new
ones; so a session that hands out deltas changes in its totals, its failures
and its world only, each of them by a fold over the deltas.
-/

namespace BlockDelta

variable {World : Type}

namespace Listener

/-- Deltas are handed to all listeners one after the other. -/
def deliverAll (listeners : List (Listener World)) (deltas : List Delta)
    (failures : List ListenerFailure) (world : World) : List ListenerFailure × World :=
  deltas.foldl (fun told delta => deliver delta 0 listeners told.1 told.2) (failures, world)

/-- The world after all listeners have been told of deltas. -/
def tellAll (listeners : List (Listener World)) (deltas : List Delta) (world : World) : World :=
  (deliverAll listeners deltas [] world).2

/-- Failures noted before stay behind the new ones and change nothing else. -/
theorem deliver_eq (delta : Delta) (number : Nat) (listeners : List (Listener World))
    (failures : List ListenerFailure) (world : World) :
    deliver delta number listeners failures world =
      ((deliver delta number listeners [] world).1 ++ failures,
        (deliver delta number listeners [] world).2) := by
  induction listeners generalizing number failures world with
  | nil => rfl
  | cons listener rest ih =>
    rw [deliver, deliver]
    cases received : listener.receive delta world with
    | mk report reached =>
      cases report with
      | none => exact ih _ _ _
      | some report =>
        simp only
        rw [ih _ (_ :: failures), ih _ [_]]
        simp

/-- Failures noted before stay behind those of all deltas and change nothing else. -/
theorem deliverAll_eq (listeners : List (Listener World)) (deltas : List Delta)
    (failures : List ListenerFailure) (world : World) :
    deliverAll listeners deltas failures world =
      ((deliverAll listeners deltas [] world).1 ++ failures, tellAll listeners deltas world) := by
  induction deltas generalizing failures world with
  | nil => rfl
  | cons delta rest ih =>
    have step (failures : List ListenerFailure) :
        deliverAll listeners (delta :: rest) failures world =
          deliverAll listeners rest (deliver delta 0 listeners failures world).1
            (deliver delta 0 listeners failures world).2 := rfl
    rw [tellAll, step, step, deliver_eq delta 0 listeners failures, ih,
      ih (deliver delta 0 listeners [] world).1]
    simp

/-- Handing deltas out in two goes is handing them out in one. -/
theorem deliverAll_append (listeners : List (Listener World)) (front back : List Delta)
    (failures : List ListenerFailure) (world : World) :
    deliverAll listeners (front ++ back) failures world =
      deliverAll listeners back (deliverAll listeners front failures world).1
        (deliverAll listeners front failures world).2 := by
  simp [deliverAll, List.foldl_append]

/-- The world after two goes is that after one. -/
theorem tellAll_append (listeners : List (Listener World)) (front back : List Delta)
    (world : World) :
    tellAll listeners (front ++ back) world =
      tellAll listeners back (tellAll listeners front world) := by
  rw [tellAll, deliverAll_append, deliverAll_eq]
  rfl

/-- What listeners report of deltas told in two goes. -/
theorem failures_append (listeners : List (Listener World)) (front back : List Delta)
    (world : World) :
    (deliverAll listeners (front ++ back) [] world).1 =
      (deliverAll listeners back [] (tellAll listeners front world)).1 ++
        (deliverAll listeners front [] world).1 := by
  rw [deliverAll_append, deliverAll_eq]
  rfl

/-- A listener that never reports a failure. -/
def Reliable (listener : Listener World) : Prop :=
  ∀ delta world, (listener.receive delta world).1 = none

/-- Reliable listeners report nothing of a delta. -/
theorem deliver_of_reliable {listeners : List (Listener World)}
    (reliable : ∀ listener ∈ listeners, Reliable listener) (delta : Delta) (number : Nat)
    (failures : List ListenerFailure) (world : World) :
    (deliver delta number listeners failures world).1 = failures := by
  induction listeners generalizing number failures world with
  | nil => rfl
  | cons listener rest ih =>
    have silent := reliable listener List.mem_cons_self delta world
    rw [deliver]
    cases received : listener.receive delta world with
    | mk report reached =>
      rw [received] at silent
      simp only at silent
      subst silent
      exact ih (fun other found => reliable other (List.mem_cons_of_mem _ found)) _ _ _

/-- Reliable listeners report nothing of any deltas. -/
theorem deliverAll_of_reliable {listeners : List (Listener World)}
    (reliable : ∀ listener ∈ listeners, Reliable listener) (deltas : List Delta)
    (failures : List ListenerFailure) (world : World) :
    (deliverAll listeners deltas failures world).1 = failures := by
  induction deltas generalizing failures world with
  | nil => rfl
  | cons delta rest ih =>
    have step : deliverAll listeners (delta :: rest) failures world =
        deliverAll listeners rest (deliver delta 0 listeners failures world).1
          (deliver delta 0 listeners failures world).2 := rfl
    rw [step, ih, deliver_of_reliable reliable]

/-- A listener with a script beside its world, which it does not touch. -/
def beside (listener : Listener World) : Listener (World × Script) where
  receive delta state :=
    let (report, world) := listener.receive delta state.1
    (report, world, state.2)

/-- A listener that pushes every delta onto a script. -/
def collecting : Listener (World × Script) where
  receive delta state := (none, state.1, state.2.push delta)

/-- A listener that collects, among others. -/
def among (front back : List (Listener World)) : List (Listener (World × Script)) :=
  front.map beside ++ collecting :: back.map beside

/-- Listeners beside a script leave it as it is. -/
theorem deliver_beside (delta : Delta) (number : Nat) (listeners : List (Listener World))
    (failures : List ListenerFailure) (state : World × Script) :
    (deliver delta number (listeners.map beside) failures state).2.2 = state.2 := by
  induction listeners generalizing number failures state with
  | nil => rfl
  | cons listener rest ih =>
    rw [List.map_cons, deliver]
    cases received : listener.receive delta state.1 with
    | mk report reached =>
      cases report <;> simp [beside, received, ih]

/-- Of two groups of listeners the first one is told first. -/
theorem deliver_append (delta : Delta) (number : Nat) (front back : List (Listener World))
    (failures : List ListenerFailure) (world : World) :
    deliver delta number (front ++ back) failures world =
      deliver delta (number + front.length) back
        (deliver delta number front failures world).1
        (deliver delta number front failures world).2 := by
  induction front generalizing number failures world with
  | nil => rfl
  | cons listener rest ih =>
    rw [List.cons_append, deliver, deliver]
    cases received : listener.receive delta world with
    | mk report reached =>
      cases report <;> simp [ih, Nat.add_assoc, Nat.add_comm 1]

/-- Whatever the others do, the script gets every delta once. -/
theorem deliver_among (delta : Delta) (front back : List (Listener World))
    (failures : List ListenerFailure) (state : World × Script) :
    (deliver delta 0 (among front back) failures state).2.2 = state.2.push delta := by
  rw [among, deliver_append, deliver]
  simp only [collecting]
  rw [deliver_beside, deliver_beside]

/-- Whatever the others do, the script gets all deltas in order. -/
theorem tellAll_among (front back : List (Listener World)) (deltas : List Delta)
    (state : World × Script) :
    (tellAll (among front back) deltas state).2 = state.2.extend deltas := by
  induction deltas generalizing state with
  | nil => rfl
  | cons delta rest ih =>
    have step : tellAll (among front back) (delta :: rest) state =
        tellAll (among front back) rest (deliver delta 0 (among front back) [] state).2 := by
      rw [← List.singleton_append, tellAll_append]
      rfl
    rw [step, ih, deliver_among]
    rfl

/-- A script that collects among reliable listeners is among reliable listeners. -/
theorem reliable_among {front back : List (Listener World)}
    (reliable : ∀ listener ∈ front ++ back, Reliable listener) :
    ∀ listener ∈ among front back, Reliable listener := by
  have kept (listener : Listener World) (found : listener ∈ front ++ back) :
      Reliable (beside listener) := by
    intro delta state
    exact reliable listener found delta state.1
  intro listener found
  rcases List.mem_append.mp found with before | after
  · obtain ⟨origin, inside, rfl⟩ := List.mem_map.mp before
    exact kept origin (List.mem_append_left _ inside)
  · rcases List.mem_cons.mp after with rfl | after
    · exact fun _ _ => rfl
    · obtain ⟨origin, inside, rfl⟩ := List.mem_map.mp after
      exact kept origin (List.mem_append_right _ inside)

end Listener

/-- The totals with further deltas. -/
def Summary.count (summary : Summary) (deltas : List Delta) : Summary :=
  { summary with
    literalBytes := summary.literalBytes + Delta.literalTotal deltas
    copyBytes := summary.copyBytes + Delta.copyTotal deltas
    deltas := summary.deltas + deltas.length }

namespace Session

/-- Deltas are handed out one after the other. -/
def emitAll (session : Session World) (deltas : List Delta) : Session World :=
  deltas.foldl emit session

/-- Deltas handed out are counted and told to the listeners. -/
theorem emitAll_eq (session : Session World) (deltas : List Delta) :
    session.emitAll deltas =
      ⟨{ session.matcher with
          emitted := session.matcher.emitted +
            (Delta.literalTotal deltas + Delta.copyTotal deltas)
          summary := session.matcher.summary.count deltas
          failures := (Listener.deliverAll session.matcher.listeners deltas
            session.matcher.failures session.world).1 },
        (Listener.deliverAll session.matcher.listeners deltas session.matcher.failures
          session.world).2⟩ := by
  induction deltas generalizing session with
  | nil => rfl
  | cons delta rest ih =>
    have step : session.emitAll (delta :: rest) = (session.emit delta).emitAll rest := rfl
    rw [step, ih]
    simp only [emit, StreamMatcher.account, Listener.deliverAll, List.foldl_cons,
      Delta.literalTotal_cons, Delta.copyTotal_cons, Summary.count, List.length_cons]
    by_cases literal : delta.isLiteral <;>
      simp [literal, Nat.add_assoc, Nat.add_comm, Nat.add_left_comm]

end Session

end BlockDelta
