import BlockDelta.Proofs.CommandLine.Failing
import BlockDelta.Proofs.Storage.Sound
import BlockDelta.Proofs.Transfer.Sending

/-!
# Which target a delta command describes

The signature has been read and the target has been found when the output is
created, and the target is read after that. So a stream describes the target as
it was when the run started, whatever names the operands have in common, unless
the output is the target itself: then the target is emptied before it is read,
the run succeeds all the same, and the stream describes a target without bytes.
-/

namespace BlockDelta

namespace Transfer

/-- A stream is a delta stream from its start to its end, for a target of this length, and its
deltas, joined where possible, are the script of the target. -/
def Conveys (signature : Signature) (options : MatchOptions) (target stream : Bytes) : Prop :=
  ∃ script, Delta.decode stream = .ok (⟨script, target.length⟩, []) ∧
    Script.empty.extend script.deltas = Matching.greedy (.ofSignature signature) options target

variable {signature further : Signature} {options others : MatchOptions}
variable {target other stream : Bytes}

/-- The targets that one stream describes are of one length, whatever they were matched against. -/
theorem Conveys.length_eq (conveys : Conveys signature options target stream)
    (also : Conveys further others other stream) : target.length = other.length := by
  obtain ⟨script, decoded, -⟩ := conveys
  obtain ⟨_, again, -⟩ := also
  exact congrArg (fun result => result.1.targetLength) (Except.ok.inj (decoded.symm.trans again))

/-- The stream of the naive policy describes its target. -/
theorem conveys_stream (small : target.length < UInt64.size)
    (encodable : ∀ delta ∈ Reference.deltas signature options target, delta.Encodable) :
    Conveys signature options target
      (Delta.stream (Reference.deltas signature options target) target.length) := by
  refine ⟨_, Reference.decode_stream_deltas small encodable, ?_⟩
  rw [Script.deltas_ofDeltas, Script.extend_empty, Matching.script_of_greedy, Reference.script_eq]

end Transfer

namespace CommandLine

open Transfer (Conveys)

/-- An output has come to hold a stream: a file holds it, and standard output got it behind what it
had accepted. -/
def Output.Holds (output : Output) (before after : Machine) (stream : Bytes) : Prop :=
  match output with
  | .standard => after.output.accepted = before.output.accepted ++ Bytes.toArray stream
  | .file path => after.files.Holds path (Bytes.toArray stream)

/-- An output leads to the file that a path leads to. -/
def Output.Overwrites (output : Output) (tree : FileTree) (target : String) : Prop :=
  ∃ path, output = .file path ∧ tree.lookUp path = tree.lookUp target

section

variable {α ε : Type} {value : α} {machine between left : Machine}

/-- What looks at the machine goes on from there. -/
theorem next_of_get {next : Machine → Running α}
    (done : (get >>= next) machine = .ok value left) : next machine machine = .ok value left :=
  done

/-- What is settled has been settled before. -/
theorem settle_eq_ok_iff {wrap : ε → Failure} {result : Except ε α} :
    settle wrap result machine = .ok value left ↔ result = .ok value ∧ left = machine := by
  constructor
  · intro done
    cases result with
    | error error => cases done
    | ok settled =>
      cases done
      exact ⟨rfl, rfl⟩
  · rintro ⟨rfl, rfl⟩
    rfl

/-- A node that is opened has been found. -/
theorem openNode_eq_ok_iff {path : String} {node : Node} :
    openNode path machine = .ok node left ↔ machine.files.lookUp path = .ok node ∧ left = machine :=
  settle_eq_ok_iff

/-- A stream that is decoded is the content of its file. -/
theorem decodeNode_eq_ok_iff {node : Node} {wrap : ε → Failure} {unreadable : Fault → ε}
    {decode : Bytes → Except ε (α × Bytes)} :
    decodeNode node wrap unreadable decode machine = .ok value left ↔
      (∃ content rest, machine.files.read node = .ok content ∧
        decode (Bytes.ofArray content) = .ok (value, rest)) ∧ left = machine := by
  constructor
  · intro done
    obtain ⟨content, _, first, onwards⟩ := exists_of_run_eq_ok (next_of_get done)
    obtain ⟨read, rfl⟩ := settle_eq_ok_iff.1 first
    obtain ⟨⟨decoded, rest⟩, _, second, last⟩ := exists_of_run_eq_ok onwards
    obtain ⟨understood, rfl⟩ := settle_eq_ok_iff.1 second
    cases last
    exact ⟨⟨content, rest, read, understood⟩, rfl⟩
  · rintro ⟨⟨content, rest, read, understood⟩, rfl⟩
    refine (bind_of_ok (settle_eq_ok_iff.2 ⟨read, rfl⟩)).trans ?_
    exact bind_of_ok (settle_eq_ok_iff.2 ⟨understood, rfl⟩)

/-- An output that is opened is standard output, or a file that has been created. -/
theorem openOutput_eq_ok {output : Output} {opened : Opened}
    (done : openOutput output machine = .ok opened between) :
    (output = .standard ∧ opened = .standard ∧ between = machine) ∨
      ∃ path number created, output = .file path ∧ opened = .file number ∧
        machine.files.create path = .ok (number, created) ∧
        between = { machine with files := created } := by
  cases output with
  | standard =>
    cases done
    exact .inl ⟨rfl, rfl, rfl⟩
  | file path =>
    obtain ⟨⟨number, created⟩, _, first, last⟩ := exists_of_run_eq_ok (next_of_get done)
    obtain ⟨made, rfl⟩ := settle_eq_ok_iff.1 first
    cases last
    exact .inr ⟨path, number, created, rfl, rfl, made, rfl⟩

/-- What is written to an output that was opened goes to some sink, and what that takes in all is
what the output holds. -/
theorem exists_of_written {output : Output} {opened : Opened} {wrap : ε → Failure}
    {writing : EStateM ε Sink α} (sound : machine.files.Sound)
    (prepared : openOutput output machine = .ok opened between)
    (written : writeTo opened wrap writing between = .ok value left) :
    ∃ sink torn, writing sink = .ok value torn ∧ ∀ stream : Bytes,
      torn.accepted = sink.accepted ++ Bytes.toArray stream → output.Holds machine left stream := by
  rcases openOutput_eq_ok prepared with
    ⟨rfl, rfl, rfl⟩ | ⟨path, number, created, rfl, rfl, made, rfl⟩
  · obtain ⟨sink, ran, rfl⟩ := writeTo_standard_eq_ok_iff.1 written
    exact ⟨_, _, ran, fun stream taken => taken⟩
  · obtain ⟨sink, ran, rfl⟩ := writeTo_file_eq_ok_iff.1 written
    refine ⟨_, _, ran, fun stream taken => ?_⟩
    obtain ⟨found, known⟩ := sound.lookUp_created made
    have whole : sink.accepted = Bytes.toArray stream := taken.trans ByteArray.empty_append
    unfold Output.Holds
    rw [← whole]
    exact FileTree.holds_store found known sink.accepted

/-- Opening an output empties the file that it leads to, and leaves every other one as it is. -/
theorem content_of_opened {output : Output} {opened : Opened} {target : String} {number : Nat}
    (sound : machine.files.Sound) (found : machine.files.lookUp target = .ok (.file number))
    (prepared : openOutput output machine = .ok opened between) :
    (output.Overwrites machine.files target → between.files.content number = .empty) ∧
      (¬output.Overwrites machine.files target →
        between.files.content number = machine.files.content number) := by
  rcases openOutput_eq_ok prepared with
    ⟨rfl, rfl, rfl⟩ | ⟨path, created, _, rfl, rfl, made, rfl⟩
  · refine ⟨?_, fun _ => rfl⟩
    rintro ⟨path, other, -⟩
    cases other
  · constructor
    · rintro ⟨_, ⟨⟩, same⟩
      exact sound.content_created (same.trans found) made
    · exact fun apart => FileTree.content_create made fun same =>
        apart ⟨path, rfl, same.trans found.symm⟩

/-- A target is no longer than a 64-bit word can say when the output has been opened. -/
theorem size_of_opened {output : Output} {opened : Opened} {target : String} {number : Nat}
    (sound : machine.files.Sound) (found : machine.files.lookUp target = .ok (.file number))
    (prepared : openOutput output machine = .ok opened between) :
    (between.files.content number).size < UInt64.size := by
  obtain ⟨emptied, kept⟩ := content_of_opened sound found prepared
  by_cases onto : output.Overwrites machine.files target
  · rw [emptied onto]
    decide
  · rw [kept onto]
    exact (sound.holds found).2

end

section

variable {signature target : String} {output : Output} {options : MatchOptions}
variable {machine left : Machine}

/-- A delta command that succeeds has decoded the signature and found the target in the files it
started with, opened the output, and described the target to it as it was from there on. -/
theorem runDelta_eq_ok (done : runDelta signature target output options machine = .ok () left) :
    ∃ node basis decoded rest source opened between summary,
      machine.files.lookUp signature = .ok node ∧ machine.files.read node = .ok basis ∧
      Signature.decode (Bytes.ofArray basis) = .ok (decoded, rest) ∧
      machine.files.lookUp target = .ok source ∧
      openOutput output machine = .ok opened between ∧
      writeTo opened (transferFailure target output.name)
        (Transfer.describeTarget (.ofSignature decoded) options
          (do let _ ← Session.consume (readerOf between.files source))) between =
        .ok summary left := by
  obtain ⟨node, _, first, afterFirst⟩ := exists_of_run_eq_ok done
  obtain ⟨known, rfl⟩ := openNode_eq_ok_iff.1 first
  obtain ⟨decoded, _, second, afterSecond⟩ := exists_of_run_eq_ok afterFirst
  obtain ⟨⟨basis, rest, read, understood⟩, rfl⟩ := decodeNode_eq_ok_iff.1 second
  obtain ⟨source, _, third, afterThird⟩ := exists_of_run_eq_ok afterSecond
  obtain ⟨found, rfl⟩ := openNode_eq_ok_iff.1 third
  obtain ⟨opened, between, prepared, afterOpened⟩ := exists_of_run_eq_ok afterThird
  obtain ⟨summary, _, written, last⟩ := exists_of_run_eq_ok (next_of_get afterOpened)
  cases last
  exact ⟨node, basis, decoded, rest, source, opened, between, summary, known, read, understood,
    found, prepared, written⟩

/-- A file is read to its end. -/
theorem readerOf_file (files : FileTree) (number : Nat) :
    (readerOf files (.file number)).fault? = none ∧
      (readerOf files (.file number)).delivered = Bytes.ofArray (files.content number) := by
  have whole : readerOf files (.file number) = [.data (Bytes.ofArray (files.content number))] := rfl
  rw [whole]
  cases Bytes.ofArray (files.content number) with
  | nil => exact ⟨rfl, rfl⟩
  | cons byte rest => exact ⟨rfl, List.append_nil _⟩

/-- Only a file is read to its end. -/
theorem exists_of_readerOf {files : FileTree} {node : Node}
    (ends : (readerOf files node).fault? = none) : ∃ number, node = .file number := by
  cases node with
  | directory place => cases ends
  | file number => exact ⟨number, rfl⟩

/-- With a signature that decodes, a target that is a file and a file that can be created, a delta
command succeeds, and has written the stream for what the target holds after the creation. -/
theorem runDelta_of_file {path : String} {node : Node} {basis : ByteArray} {decoded : Signature}
    {rest : Bytes} {number created : Nat} {files : FileTree}
    (known : machine.files.lookUp signature = .ok node) (read : machine.files.read node = .ok basis)
    (understood : Signature.decode (Bytes.ofArray basis) = .ok (decoded, rest))
    (found : machine.files.lookUp target = .ok (.file number))
    (made : machine.files.create path = .ok (created, files))
    (narrow : options.maxLiteral < UInt32.size) :
    runDelta signature target (.file path) options machine =
      .ok () { machine with
        files := files.store created (Bytes.toArray (Delta.stream
          (Reference.deltas decoded options (Bytes.ofArray (files.content number)))
          (files.content number).size)) } := by
  obtain ⟨ends, delivered⟩ := readerOf_file files number
  have encodable := Reference.encodable_of_narrow decoded
    (readerOf files (.file number)).delivered narrow
  have described := Transfer.describeTarget_eq_ok ends encodable (Sink.hasRoom_unlimited _)
  rw [delivered, Sink.offered_of_hasRoom (Sink.hasRoom_unlimited _)] at described
  let opened : Machine := { machine with files }
  have creating : openOutput (.file path) machine = .ok (.file created) opened :=
    bind_of_ok (settle_eq_ok_iff.2 ⟨made, rfl⟩)
  have looking : (get : Running Machine) opened = .ok opened opened := rfl
  unfold runDelta
  rw [bind_of_ok (openNode_eq_ok_iff.2 ⟨known, rfl⟩),
    bind_of_ok (decodeNode_eq_ok_iff.2 ⟨⟨basis, rest, read, understood⟩, rfl⟩),
    bind_of_ok (openNode_eq_ok_iff.2 ⟨found, rfl⟩), bind_of_ok creating, bind_of_ok looking]
  refine (bind_of_ok (writeTo_file_eq_ok_iff.2 ⟨_, described, rfl⟩)).trans ?_
  simp only [Sink.accepting, Sink.unlimited, ByteArray.empty_append]
  rfl

/-- A target that is described is described whole, by a stream that conveys it. -/
theorem accepted_of_describeTarget {decoded : Signature} {reader : Reader} {sink torn : Sink}
    {summary : Summary} (small : reader.delivered.length < UInt64.size)
    (done : Transfer.describeTarget (.ofSignature decoded) options
      (do let _ ← Session.consume reader) sink = .ok summary torn) :
    let stream := Delta.stream (Reference.deltas decoded options reader.delivered)
      reader.delivered.length
    torn.accepted = sink.accepted ++ Bytes.toArray stream ∧
      Conveys decoded options reader.delivered stream := by
  obtain ⟨ends, encodable, room⟩ := Transfer.of_describeTarget_eq_ok done
  rw [Transfer.describeTarget_eq_ok ends encodable room, Sink.offered_of_hasRoom room] at done
  cases done
  exact ⟨rfl, Transfer.conveys_stream small encodable⟩

/-- A delta command that succeeds has found a signature and a target in files, and its output holds
the stream for what could be read of the target: nothing when the output has overwritten it, and
otherwise all that it held. -/
theorem written_of_runDelta (sound : machine.files.Sound)
    (done : runDelta signature target output options machine = .ok () left) :
    ∃ basis decoded rest content read,
      machine.files.Holds signature basis ∧
      Signature.decode (Bytes.ofArray basis) = .ok (decoded, rest) ∧
      machine.files.Holds target content ∧
      (output.Overwrites machine.files target → read = []) ∧
      (¬output.Overwrites machine.files target → read = Bytes.ofArray content) ∧
      Conveys decoded options read
        (Delta.stream (Reference.deltas decoded options read) read.length) ∧
      output.Holds machine left
        (Delta.stream (Reference.deltas decoded options read) read.length) := by
  obtain ⟨node, basis, decoded, rest, source, opened, between, summary, known, read, understood,
    found, prepared, written⟩ := runDelta_eq_ok done
  obtain ⟨sink, torn, described, holds⟩ := exists_of_written sound prepared written
  obtain ⟨number, rfl⟩ := exists_of_readerOf (Transfer.of_describeTarget_eq_ok described).1
  have delivered := (readerOf_file between.files number).2
  have small : (readerOf between.files (.file number)).delivered.length < UInt64.size := by
    rw [delivered]
    exact size_of_opened sound found prepared
  obtain ⟨taken, conveys⟩ := accepted_of_describeTarget small described
  -- what was read is what opening the output has left of the target
  obtain ⟨emptied, kept⟩ := content_of_opened sound found prepared
  refine ⟨basis, decoded, rest, _, _, sound.holds_of_read known read, understood,
    (sound.holds found).1, fun onto => ?_, fun apart => ?_, conveys, holds _ taken⟩
  · rw [delivered, emptied onto]
    rfl
  · rw [delivered, kept apart]

end

section

variable {arguments : List String} {machine : Machine}

/-- A run with status 0 has been served. -/
theorem exists_of_status_eq_zero (succeeded : (run arguments machine).status = 0) :
    ∃ left, serveWords arguments machine = .ok () left ∧ run arguments machine = ⟨0, "", left⟩ := by
  cases served : serveWords arguments machine with
  | ok done left => exact ⟨left, rfl, run_of_ok served⟩
  | error failure left =>
    rw [run_of_error served] at succeeded
    have known := failure.status_cases
    simp only [] at succeeded
    omega

/-- Words that ask for a delta are served by the command that writes it. -/
theorem serveWords_of_delta {signature target : String} {output : Output} {options : MatchOptions}
    {verbosity : Verbosity}
    (asked : Request.ofWords arguments.tail =
      .ok (.command (.delta signature target output options) verbosity)) (machine : Machine) :
    serveWords arguments machine = runDelta signature target output options machine := by
  unfold serveWords
  rw [asked]
  rfl

end

/-- A delta command that succeeds has read a signature and found a target that both were files when
the run started, and its output holds a whole delta stream for this signature. The stream describes
the target as it was at the start, unless the output is the target and had something to lose: in
that case it describes a target without bytes. -/
theorem run_delta_conveys {arguments : List String} {machine : Machine} {signature target : String}
    {output : Output} {options : MatchOptions} {verbosity : Verbosity}
    (asked : Request.ofWords arguments.tail =
      .ok (.command (.delta signature target output options) verbosity))
    (sound : machine.files.Sound) (succeeded : (run arguments machine).status = 0) :
    ∃ basis decoded rest content stream,
      machine.files.Holds signature basis ∧
      Signature.decode (Bytes.ofArray basis) = .ok (decoded, rest) ∧
      machine.files.Holds target content ∧
      output.Holds machine (run arguments machine).machine stream ∧
      (output.Overwrites machine.files target → Conveys decoded options [] stream) ∧
      (Conveys decoded options (Bytes.ofArray content) stream ↔
        (output.Overwrites machine.files target → content = .empty)) := by
  obtain ⟨left, served, ended⟩ := exists_of_status_eq_zero succeeded
  rw [serveWords_of_delta asked] at served
  obtain ⟨basis, decoded, rest, content, read, known, understood, held, emptied, kept, conveys,
    holds⟩ := written_of_runDelta sound served
  rw [ended]
  refine ⟨basis, decoded, rest, content, _, known, understood, held, holds, fun onto => ?_, ?_⟩
  · rw [emptied onto] at conveys ⊢
    exact conveys
  · by_cases onto : output.Overwrites machine.files target
    · rw [emptied onto] at conveys ⊢
      refine ⟨fun also _ => ?_, fun empty => ?_⟩
      · exact ByteArray.size_eq_zero_iff.1 (also.length_eq conveys)
      · rw [empty onto]
        exact conveys
    · rw [kept onto] at conveys ⊢
      exact ⟨fun _ onto' => absurd onto' onto, fun _ => conveys⟩

/-- The output is the signature, and the target is described all the same. -/
theorem run_delta_conveys_over_signature :
    let nothing : ByteArray := ⟨#[0x52, 0x44, 0x53, 0x47, 1, 1, 0, 0, 0, 0, 0, 0, 0, 0, 0, 0, 0, 2,
      0x10, 0, 0, 0, 0, 0, 0, 0, 0, 0, 0]⟩
    let files := ((FileTree.ofWorking []).addFile ["s"] nothing).addFile ["f"] ⟨#[7]⟩
    let machine : Machine := ⟨files, .ofLimit none⟩
    let arguments := ["rdelta", "delta", "s", "f", "s"]
    Request.ofWords arguments.tail =
        .ok (.command (.delta "s" "f" (.file "s") {}) (Verbosity.ofLevel 0)) ∧
      machine.files.Sound ∧ (run arguments machine).status = 0 ∧
      ∃ decoded stream, Signature.decode (Bytes.ofArray nothing) = .ok (decoded, []) ∧
        (Output.file "s").Holds machine (run arguments machine).machine stream ∧
        Conveys decoded {} [7] stream := by
  intro nothing files machine arguments
  have asked : Request.ofWords arguments.tail =
      .ok (.command (.delta "s" "f" (.file "s") {}) (Verbosity.ofLevel 0)) := by cbv
  have sound : machine.files.Sound :=
    ((FileTree.sound_ofWorking []).addFile ["s"] (by decide)).addFile ["f"] (by decide)
  have known : files.lookUp "s" = .ok (.file 0) := by cbv
  have found : files.lookUp "f" = .ok (.file 1) := by cbv
  have made : files.create "s" = .ok (0, files.store 0 .empty) := by cbv
  obtain ⟨decoded, understood⟩ :
    ∃ decoded, Signature.decode (Bytes.ofArray nothing) = .ok (decoded, []) := ⟨_, by cbv⟩
  have ran : serveWords arguments machine = .ok () _ :=
    (serveWords_of_delta asked machine).trans
      (runDelta_of_file known rfl understood found made (by decide))
  have succeeded : (run arguments machine).status = 0 := by rw [run_of_ok ran]
  obtain ⟨basis, other, rest, content, stream, holds, again, target, written, -, conveys⟩ :=
    run_delta_conveys asked sound succeeded
  obtain rfl : basis = nothing := holds.eq_of_holds ⟨0, known, rfl⟩
  obtain rfl : content = ⟨#[7]⟩ := target.eq_of_holds ⟨1, found, rfl⟩
  rw [understood] at again
  cases again
  refine ⟨asked, sound, succeeded, decoded, stream, understood, written, conveys.2 ?_⟩
  rintro ⟨path, ⟨⟩, same⟩
  have different : files.lookUp "s" = files.lookUp "f" := same
  rw [known, found] at different
  cases different

/-- The output is the target. The run succeeds, and what it leaves in place of the target describes
a target without bytes. -/
theorem run_delta_over_target :
    let nothing : ByteArray := ⟨#[0x52, 0x44, 0x53, 0x47, 1, 1, 0, 0, 0, 0, 0, 0, 0, 0, 0, 0, 0, 2,
      0x10, 0, 0, 0, 0, 0, 0, 0, 0, 0, 0]⟩
    let lost : ByteArray := ⟨#[0x68, 0x65, 0x6c, 0x6c, 0x6f]⟩
    let files := ((FileTree.ofWorking []).addFile ["s"] nothing).addFile ["f"] lost
    let machine : Machine := ⟨files, .ofLimit none⟩
    let arguments := ["rdelta", "delta", "s", "f", "f"]
    let ending := run arguments machine
    ending.status = 0 ∧ machine.files.Holds "f" lost ∧
      ending.machine.files.Holds "f" ⟨#[0x52, 0x44, 0x44, 0x4c, 1, 0, 0, 0, 0, 0, 0, 0, 0, 0]⟩ ∧
      ¬∃ decoded stream, (Output.file "f").Holds machine ending.machine stream ∧
        Conveys decoded {} (Bytes.ofArray lost) stream := by
  intro nothing lost files machine arguments ending
  have asked : Request.ofWords arguments.tail =
      .ok (.command (.delta "s" "f" (.file "f") {}) (Verbosity.ofLevel 0)) := by cbv
  have known : files.lookUp "s" = .ok (.file 0) := by cbv
  have found : files.lookUp "f" = .ok (.file 1) := by cbv
  let opened := files.store 1 .empty
  have made : files.create "f" = .ok (1, opened) := by cbv
  obtain ⟨decoded, understood⟩ :
    ∃ decoded, Signature.decode (Bytes.ofArray nothing) = .ok (decoded, []) := ⟨_, by cbv⟩
  have ran : serveWords arguments machine = .ok () _ :=
    (serveWords_of_delta asked machine).trans
      (runDelta_of_file known rfl understood found made (by decide))
  let written := Delta.stream (Reference.deltas decoded {} []) 0
  have short : written = [0x52, 0x44, 0x44, 0x4c, 1, 0, 0, 0, 0, 0, 0, 0, 0, 0] := by
    simp only [written, Reference.deltas, Reference.steps_nil]
    cbv
  have left : ending.machine.files.Holds "f" (Bytes.toArray written) := by
    have there : opened.lookUp "f" = .ok (.file 1) := found
    simp only [ending, run_of_ok ran]
    exact FileTree.holds_store there (by decide) _
  rw [short] at left
  have succeeded : ending.status = 0 := by simp only [ending, run_of_ok ran]
  refine ⟨succeeded, ⟨1, found, rfl⟩, left, ?_⟩
  rintro ⟨against, stream, held, conveys⟩
  have same : stream = [0x52, 0x44, 0x44, 0x4c, 1, 0, 0, 0, 0, 0, 0, 0, 0, 0] :=
    congrArg Bytes.ofArray (held.eq_of_holds left)
  have empty : Conveys decoded {} [] stream := by
    rw [same, ← short]
    exact Transfer.conveys_stream (by decide)
      (Reference.encodable_of_narrow decoded [] (by decide))
  cases conveys.length_eq empty

end CommandLine

end BlockDelta
