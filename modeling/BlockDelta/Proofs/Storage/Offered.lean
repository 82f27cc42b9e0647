import BlockDelta.Proofs.Storage.Streams

/-!
# What a sink takes of what it is offered

A sink takes bytes up to its limit, wherever that lies, and nothing behind it.
So pieces that are offered one after the other, whether or not one of them
fails, leave what their bytes leave when they are offered at once; and an action
that stops at the first piece that fails leaves no more and no less.
-/

namespace BlockDelta.Sink

/-- A sink after bytes were offered to it: it has taken as many as it had room for. -/
def offered : Sink → Bytes → Sink
  | ⟨accepted, none⟩, bytes => ⟨accepted ++ Bytes.toArray bytes, none⟩
  | ⟨accepted, some room⟩, bytes =>
    ⟨accepted ++ Bytes.toArray (bytes.take room), some (room - bytes.length)⟩

variable {sink : Sink}

instance (sink : Sink) (count : Nat) : Decidable (sink.HasRoom count) :=
  match known : sink.room with
  | none => isTrue fun _ other => absurd (known.symm.trans other) nofun
  | some room =>
    decidable_of_iff (count ≤ room)
      ⟨fun enough _ other => Option.some.inj (known.symm.trans other) ▸ enough,
        fun enough => enough room known⟩

/-- A sink for so many bytes has room for no more. -/
theorem hasRoom_ofLimit {room count : Nat} :
    (ofLimit (some room)).HasRoom count ↔ count ≤ room :=
  ⟨fun enough => enough room rfl, fun enough _ known => Option.some.inj known ▸ enough⟩

/-- Without a limit there is room for anything. -/
theorem hasRoom_unlimited (count : Nat) : unlimited.HasRoom count := nofun

/-- Where there is room for more there is room for less. -/
theorem HasRoom.of_le {count more : Nat} (room : sink.HasRoom more) (less : count ≤ more) :
    sink.HasRoom count :=
  fun limit known => Nat.le_trans less (room limit known)

/-- What is offered takes up room, as far as there is any. -/
theorem room_offered (sink : Sink) (bytes : Bytes) :
    (sink.offered bytes).room = sink.room.map fun room => room - bytes.length := by
  obtain ⟨accepted, _ | room⟩ := sink <;> rfl

/-- Offering nothing changes nothing. -/
theorem offered_nil (sink : Sink) : sink.offered [] = sink := by
  obtain ⟨accepted, _ | room⟩ := sink
  · exact congrArg (Sink.mk · none) ByteArray.append_empty
  · rw [offered, List.take_nil]
    exact congrArg (Sink.mk · (some room)) ByteArray.append_empty

/-- What is offered in two goes is taken as if it were offered in one. -/
theorem offered_offered (sink : Sink) (front back : Bytes) :
    (sink.offered front).offered back = sink.offered (front ++ back) := by
  obtain ⟨accepted, _ | room⟩ := sink
  · rw [offered, offered, offered, Bytes.toArray_append, ByteArray.append_assoc]
  · rw [offered, offered, offered, List.take_append, Bytes.toArray_append, ByteArray.append_assoc,
      List.length_append, Nat.sub_sub]

/-- What there is room for is accepted. -/
theorem offered_of_hasRoom {bytes : Bytes} (room : sink.HasRoom bytes.length) :
    sink.offered bytes = sink.accepting (Bytes.toArray bytes) := by
  obtain ⟨accepted, _ | limit⟩ := sink
  · rfl
  · have enough : bytes.length ≤ limit := room limit rfl
    rw [offered, List.take_of_length_le enough]
    rfl

/-- A sink that could not take all of what it was offered takes nothing of what follows. -/
theorem offered_of_full {front : Bytes} (full : ¬sink.HasRoom front.length) (back : Bytes) :
    sink.offered (front ++ back) = sink.offered front := by
  obtain ⟨accepted, _ | room⟩ := sink
  · exact absurd (hasRoom_unlimited _) full
  · have short : room < front.length := Nat.lt_of_not_le fun enough =>
      full fun _ known => Option.some.inj known ▸ enough
    simp only [offered, List.take_append_of_le_length (Nat.le_of_lt short), List.length_append,
      Nat.sub_eq_zero_of_le (Nat.le_of_lt short),
      Nat.sub_eq_zero_of_le (Nat.le_add_right_of_le (Nat.le_of_lt short))]

/-- There is room for two pieces if there is room for the first, and then for the second. -/
theorem hasRoom_add {bytes : Bytes} {count : Nat} :
    sink.HasRoom (bytes.length + count) ↔
      sink.HasRoom bytes.length ∧ (sink.offered bytes).HasRoom count := by
  constructor
  · intro room
    have first := room.of_le (Nat.le_add_right ..)
    refine ⟨first, ?_⟩
    rw [offered_of_hasRoom first]
    exact HasRoom.accepting room
  · rintro ⟨first, second⟩ room known
    have enough := first room known
    have left : (sink.offered bytes).room = some (room - bytes.length) := by
      rw [room_offered, known]
      rfl
    have more := second _ left
    omega

/-- Something more finds room exactly when there is room for it and all before it. -/
theorem hasRoom_offered {bytes : Bytes} {count : Nat} (something : 0 < count) :
    (sink.offered bytes).HasRoom count ↔ sink.HasRoom (bytes.length + count) := by
  refine ⟨fun room => hasRoom_add.2 ⟨fun limit known => ?_, room⟩, fun room =>
    (hasRoom_add.1 room).2⟩
  have left : (sink.offered bytes).room = some (limit - bytes.length) := by
    rw [room_offered, known]
    rfl
  have more := room _ left
  omega

/-- Bytes are offered in one go, which fails when there is no room for all of them. -/
def offer (bytes : Bytes) : Writing Unit := fun sink =>
  if sink.HasRoom bytes.length then .ok () (sink.offered bytes)
  else .error .sinkFull (sink.offered bytes)

/-- An offer for which there is room succeeds. -/
theorem offer_of_hasRoom {bytes : Bytes} (room : sink.HasRoom bytes.length) :
    offer bytes sink = .ok () (sink.offered bytes) := if_pos room

/-- An offer that is too much fails. -/
theorem offer_of_full {bytes : Bytes} (full : ¬sink.HasRoom bytes.length) :
    offer bytes sink = .error .sinkFull (sink.offered bytes) := if_neg full

/-- What is offered with success is accepted. -/
theorem accepted_of_offer {bytes : Bytes} {left : Sink} (done : offer bytes sink = .ok () left) :
    left.accepted = sink.accepted ++ Bytes.toArray bytes := by
  by_cases room : sink.HasRoom bytes.length
  · rw [offer_of_hasRoom room, offered_of_hasRoom room] at done
    cases done
    rfl
  · rw [offer_of_full room] at done
    cases done

/-- Offering nothing succeeds. -/
theorem offer_nil : offer [] = pure () := by
  funext sink
  have room : sink.HasRoom ([] : Bytes).length := fun _ _ => Nat.zero_le _
  rw [offer_of_hasRoom room, offered_nil]
  rfl

/-- Two offers in order, of which a failing one is the last, are one offer of both. -/
theorem offer_append (front back : Bytes) :
    offer (front ++ back) = offer front >>= fun _ => offer back := by
  funext sink
  by_cases first : sink.HasRoom front.length
  · rw [bind_of_ok (offer_of_hasRoom first), offer, offer, offered_offered, List.length_append]
    simp only [hasRoom_add, first, true_and]
  · have both : ¬sink.HasRoom (front ++ back).length := fun room =>
      first (room.of_le (by rw [List.length_append]; exact Nat.le_add_right ..))
    rw [bind_of_error (offer_of_full first), offer_of_full both, offered_of_full first]

/-- Writing a piece is offering it. -/
theorem write_eq_offer (piece : Bytes) : write piece = offer piece := by
  funext sink
  by_cases room : sink.HasRoom piece.length
  · rw [offer_of_hasRoom room, offered_of_hasRoom room, write_of_hasRoom room]
  · rw [offer_of_full room]
    obtain ⟨accepted, _ | limit⟩ := sink
    · exact absurd (hasRoom_unlimited _) room
    · have short : limit < piece.length := Nat.lt_of_not_le fun enough =>
        room fun _ known => Option.some.inj known ▸ enough
      simp only [write, if_neg (Nat.not_le_of_lt short), store_eq_append, offered,
        Nat.sub_eq_zero_of_le (Nat.le_of_lt short)]

/-- Writing pieces until one fails is offering their bytes in one go. -/
theorem writeEach_eq_offer (pieces : List Bytes) : writeEach pieces = offer pieces.flatten := by
  induction pieces with
  | nil => exact offer_nil.symm
  | cons piece rest ih =>
    rw [writeEach, write_eq_offer, ih, List.flatten_cons, offer_append]

/-- The output of a run into a sink that fills up is an honest prefix of a whole: without a limit
the run succeeds and the whole is written; with a limit, wherever that lies in the whole, exactly
the bytes up to it are, and the run says that it succeeded exactly when these are all. -/
structure Honest (run : Sink → Bool × Sink) (whole : Bytes) : Prop where
  /-- The whole is what is written without a limit. -/
  complete : run .unlimited = (true, .holding whole)
  /-- What is accepted is what the whole begins with. -/
  accepted : ∀ room, (run (ofLimit (some room))).2.accepted = Bytes.toArray (whole.take room)
  /-- Success is reported of the whole only. -/
  succeeds : ∀ room, (run (ofLimit (some room))).1 = true ↔ whole.length ≤ room

/-- A run that does to its sink what an offer of the whole does is honest. -/
theorem honest_of_offered {run : Sink → Bool × Sink} {whole : Bytes}
    (taken : ∀ sink, (run sink).2 = sink.offered whole)
    (fine : ∀ sink, (run sink).1 = true ↔ sink.HasRoom whole.length) : Honest run whole where
  complete := by
    have sink : (run .unlimited).2 = .holding whole := by
      rw [taken, unlimited, offered, ByteArray.empty_append]
      rfl
    exact Prod.ext ((fine _).2 (hasRoom_unlimited _)) sink
  accepted room := by
    rw [taken, ofLimit, offered, ByteArray.empty_append]
  succeeds room := (fine _).trans hasRoom_ofLimit

/-- Whether an action on a sink succeeds, and the sink that it leaves. -/
def attempt {Cause α : Type} (action : EStateM Cause Sink α) (sink : Sink) : Bool × Sink :=
  match action sink with
  | .ok _ left => (true, left)
  | .error _ left => (false, left)

/-- An action that comes to what an offer of the whole comes to is honest. -/
theorem honest_attempt {Cause α : Type} {action : EStateM Cause Sink α} {whole : Bytes}
    (done : ∀ sink : Sink, sink.HasRoom whole.length →
      ∃ value, action sink = .ok value (sink.offered whole))
    (failed : ∀ sink : Sink, ¬sink.HasRoom whole.length →
      ∃ cause, action sink = .error cause (sink.offered whole)) :
    Honest (attempt action) whole := by
  have outcome (sink : Sink) :
      attempt action sink = (decide (sink.HasRoom whole.length), sink.offered whole) := by
    by_cases room : sink.HasRoom whole.length
    · obtain ⟨value, ran⟩ := done sink room
      rw [attempt, ran, decide_eq_true room]
    · obtain ⟨cause, ran⟩ := failed sink room
      rw [attempt, ran, decide_eq_false room]
  refine honest_of_offered (fun sink => ?_) fun sink => ?_
  · rw [outcome]
  · rw [outcome, decide_eq_true_iff]

end BlockDelta.Sink
