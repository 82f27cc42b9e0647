import BlockDelta.Proofs.CommandLine.Describing
import BlockDelta.Proofs.Rebuild.Written

/-!
# What a run leaves behind

A request is served by writing bytes to one output. `Request.Writes` says which
bytes these are, by the files that are there when the run starts and without
regard to how they are read, matched and written. A run that succeeds has
written all of them; one that fails for what was asked, or for a malformed
stream, has written none.
-/

namespace BlockDelta

namespace CommandLine

/-- The output of a rebuild; in place it is the basis itself. -/
def Destination.output (basis : String) : Destination → Output
  | .inPlace => .file basis
  | .fresh output => output

/-- The output of a request. -/
def Request.output : Request → Output
  | .help => .standard
  | .version => .standard
  | .command (.signature _ output _) _ => output
  | .command (.delta _ _ output _) _ => output
  | .command (.patch basis _ destination) _ => destination.output basis

/-- A request comes to these bytes, by the files that it finds: a text; the signature of the basis;
the delta stream of the target, or of nothing where the output overwrites the target; or what the
deltas make of the basis. -/
def Request.Writes (request : Request) (files : FileTree) (bytes : Bytes) : Prop :=
  match request with
  | .help => bytes = Bytes.ofArray helpText.toUTF8
  | .version => bytes = Bytes.ofArray versionLine.toUTF8
  | .command (.signature basis _ options) _ =>
    ∃ content generator signature, files.Holds basis content ∧
      options.generator content.size = .ok generator ∧
      generator.ofBuffer 0 (Bytes.ofArray content) = .ok signature ∧ bytes = signature.encode
  | .command (.delta signature target output options) _ =>
    ∃ basis decoded rest content read, files.Holds signature basis ∧
      Signature.decode (Bytes.ofArray basis) = .ok (decoded, rest) ∧ files.Holds target content ∧
      (output.Overwrites files target → read = []) ∧
      (¬output.Overwrites files target → read = Bytes.ofArray content) ∧
      bytes = Delta.stream (Reference.deltas decoded options read) read.length
  | .command (.patch basis delta _) _ =>
    ∃ stream decoded rest, files.Holds delta stream ∧
      Delta.decode (Bytes.ofArray stream) = .ok (decoded, rest) ∧
      decoded.script.applyTo (files.bytesAt basis) = some (Bytes.toArray bytes)

section

variable {machine left : Machine}

/-- A text that is said has gone to standard output whole. -/
theorem written_of_say {text : String} (done : say text machine = .ok () left) :
    Output.standard.Holds machine left (Bytes.ofArray text.toUTF8) := by
  obtain ⟨sink, written, rfl⟩ := writeTo_standard_eq_ok_iff.1 done
  rw [Sink.write_eq_offer] at written
  exact Sink.accepted_of_offer written

/-- A command that writes a signature and succeeds has written the signature of a file. -/
theorem written_of_runSignature {basis : String} {output : Output} {options : Signature.Options}
    (sound : machine.files.Sound) (done : runSignature basis output options machine = .ok () left) :
    ∃ content generator signature, machine.files.Holds basis content ∧
      options.generator content.size = .ok generator ∧
      generator.ofBuffer 0 (Bytes.ofArray content) = .ok signature ∧
      output.Holds machine left signature.encode := by
  obtain ⟨node, _, first, afterFirst⟩ := exists_of_run_eq_ok done
  obtain ⟨found, rfl⟩ := openNode_eq_ok_iff.1 first
  obtain ⟨generator, _, second, afterSecond⟩ := exists_of_run_eq_ok (next_of_get afterFirst)
  obtain ⟨chosen, rfl⟩ := settle_eq_ok_iff.1 second
  obtain ⟨content, _, third, afterThird⟩ := exists_of_run_eq_ok (next_of_get afterSecond)
  obtain ⟨read, rfl⟩ := settle_eq_ok_iff.1 third
  obtain ⟨signature, _, fourth, afterFourth⟩ := exists_of_run_eq_ok afterThird
  obtain ⟨made, rfl⟩ := settle_eq_ok_iff.1 fourth
  obtain ⟨opened, between, prepared, written⟩ := exists_of_run_eq_ok afterFourth
  obtain ⟨sink, torn, ran, holds⟩ := exists_of_written sound prepared written
  cases node with
  | directory place => cases read
  | file number =>
    cases read
    exact ⟨_, generator, signature, (sound.holds found).1, chosen, made,
      holds _ (Signature.accepted_of_write ran)⟩

/-- What succeeds on the files alone leaves standard output as it is. -/
theorem onFiles_eq_ok {α : Type} {action : Rebuild.Filing α} {value : α}
    (done : onFiles action machine = .ok value left) :
    ∃ files, action machine.files = .ok value files ∧ left = { machine with files } := by
  unfold onFiles at done
  split at done
  · rename_i ran
    cases done
    exact ⟨_, ran, rfl⟩
  · cases done

/-- A command that rebuilds a target and succeeds has written what the deltas make of the basis. -/
theorem written_of_runPatch {basis delta : String} {destination : Destination}
    (sound : machine.files.Sound) (done : runPatch basis delta destination machine = .ok () left) :
    ∃ stream decoded rest target, machine.files.Holds delta stream ∧
      Delta.decode (Bytes.ofArray stream) = .ok (decoded, rest) ∧
      decoded.script.applyTo (machine.files.bytesAt basis) = some target ∧
      (destination.output basis).Holds machine left (Bytes.ofArray target) := by
  obtain ⟨node, _, first, afterFirst⟩ := exists_of_run_eq_ok done
  obtain ⟨known, rfl⟩ := openNode_eq_ok_iff.1 first
  obtain ⟨decoded, start, second, onwards⟩ := exists_of_run_eq_ok afterFirst
  obtain ⟨⟨stream, rest, read, understood⟩, rfl⟩ := decodeNode_eq_ok_iff.1 second
  have held := sound.holds_of_read known read
  suffices rebuilt : ∃ target, Rebuild.Yields decoded.script.deltas (start.files.bytesAt basis)
      target ∧ (destination.output basis).Holds start left (Bytes.ofArray target) by
    obtain ⟨target, yields, holds⟩ := rebuilt
    exact ⟨stream, decoded, rest, target, held, understood, yields.applyTo_eq understood, holds⟩
  match destination with
  | .inPlace =>
    obtain ⟨report, _, third, last⟩ := exists_of_run_eq_ok onwards
    cases last
    obtain ⟨files, ran, rfl⟩ := onFiles_eq_ok third
    obtain ⟨target, yields, holds⟩ := Rebuild.holds_of_fileInPlace sound ran
    exact ⟨target, yields, holds⟩
  | .fresh (.file path) =>
    obtain ⟨report, _, third, last⟩ := exists_of_run_eq_ok onwards
    cases last
    obtain ⟨files, ran, rfl⟩ := onFiles_eq_ok third
    obtain ⟨target, yields, holds⟩ := Rebuild.holds_of_toFile sound ran
    exact ⟨target, yields, holds⟩
  | .fresh .standard =>
    obtain ⟨node, _, third, afterThird⟩ := exists_of_run_eq_ok onwards
    obtain ⟨found, rfl⟩ := openNode_eq_ok_iff.1 third
    obtain ⟨report, _, fourth, last⟩ := exists_of_run_eq_ok (next_of_get afterThird)
    cases last
    obtain ⟨sink, ran, rfl⟩ := writeTo_standard_eq_ok_iff.1 fourth
    exact Rebuild.accepted_of_ofNode found ran

/-- A request that is served has its output hold all that it comes to. -/
theorem written_of_serve {request : Request} (sound : machine.files.Sound)
    (done : serve request machine = .ok () left) :
    ∃ bytes, request.Writes machine.files bytes ∧ request.output.Holds machine left bytes := by
  match request with
  | .help => exact ⟨_, rfl, written_of_say done⟩
  | .version => exact ⟨_, rfl, written_of_say done⟩
  | .command (.signature basis output options) _ =>
    obtain ⟨content, generator, signature, held, chosen, made, holds⟩ :=
      written_of_runSignature sound done
    exact ⟨_, ⟨content, generator, signature, held, chosen, made, rfl⟩, holds⟩
  | .command (.delta signature target output options) _ =>
    obtain ⟨basis, decoded, rest, content, read, known, understood, held, emptied, kept, -,
      holds⟩ := written_of_runDelta sound done
    exact ⟨_, ⟨basis, decoded, rest, content, read, known, understood, held, emptied, kept, rfl⟩,
      holds⟩
  | .command (.patch basis delta destination) _ =>
    obtain ⟨stream, decoded, rest, target, held, understood, applied, holds⟩ :=
      written_of_runPatch sound done
    exact ⟨_, ⟨stream, decoded, rest, held, understood, applied⟩, holds⟩

end

/-- A run ends with status 0, 1, 11 or 12. One that ends with 1, for what was asked, or with 12, for
a malformed stream, has done nothing at all: no file was created, emptied or changed, and nothing
went to standard output. One that ends with 0 leaves nothing partial either: with any more room on
standard output it leaves the same files and has said the same, and its output, be it a file or
standard output, has got all the bytes that were asked for. -/
theorem run_untouched (arguments : List String) (machine : Machine) :
    let ending := run arguments machine
    (ending.status = 0 ∨ ending.status = 1 ∨ ending.status = 11 ∨ ending.status = 12) ∧
      (ending.status = 1 ∨ ending.status = 12 → ending.machine = machine) ∧
      (ending.status = 0 → run arguments machine.enlarge = ⟨0, "", ending.machine.enlarge⟩) ∧
      (ending.status = 0 → machine.files.Sound →
        ∃ request bytes, Request.ofWords arguments.tail = .ok request ∧
          request.Writes machine.files bytes ∧
          request.output.Holds machine ending.machine bytes) := by
  have careful := careful_serveWords arguments
  cases served : serveWords arguments machine with
  | ok done left =>
    rw [run_of_ok served]
    refine ⟨.inl rfl, nofun, fun _ => run_of_ok (careful.enlarges.onward machine done left served),
      fun _ sound => ?_⟩
    obtain ⟨request, _, first, serving⟩ := exists_of_run_eq_ok served
    obtain ⟨asked, rfl⟩ := settle_eq_ok_iff.1 first
    obtain ⟨bytes, writes, holds⟩ := written_of_serve sound serving
    exact ⟨request, bytes, asked, writes, holds⟩
  | error failure left =>
    have known := failure.status_cases
    rw [run_of_error served]
    simp only []
    refine ⟨.inr known, fun early => careful.untouched machine failure left served ?_, by omega,
      by omega⟩
    unfold Failure.accessStatus
    omega

/-- A truncated delta stream, with the basis as output; words that lack an operand; and a target for
which standard output just has room, and which goes to a new file as well. -/
theorem run_untouched_truncated :
    let stream : ByteArray := ⟨#[0x52, 0x44, 0x44, 0x4c, 1, 2, 0, 0, 0, 0, 0, 0, 0, 0, 0, 0, 0, 1,
      7, 0, 0, 0, 0, 0, 0, 0, 0, 1]⟩
    let files := ((FileTree.ofWorking []).addFile ["b"] ⟨#[0x52, 0x44, 0x44]⟩).addFile ["d"] stream
    let machine : Machine := ⟨files, .ofLimit (some 1)⟩
    (run ["rdelta", "patch", "b", "b", "b"] machine).status = 12 ∧
      (run ["rdelta", "patch", "b", "b", "b"] machine).machine = machine ∧
      (run ["rdelta", "patch", "b", "d"] machine).status = 1 ∧
      (run ["rdelta", "patch", "b", "d"] machine).machine = machine ∧
      (run ["rdelta", "patch", "b", "d", "-"] machine).status = 0 ∧
      run ["rdelta", "patch", "b", "d", "-"] machine.enlarge =
        ⟨0, "", (run ["rdelta", "patch", "b", "d", "-"] machine).machine.enlarge⟩ ∧
      (run ["rdelta", "patch", "b", "d", "o"] machine).status = 0 ∧ machine.files.Sound ∧
      (run ["rdelta", "patch", "b", "d", "o"] machine).machine.files.Holds "o" ⟨#[7]⟩ := by
  intro stream files machine
  obtain ⟨-, format, -⟩ := run_untouched ["rdelta", "patch", "b", "b", "b"] machine
  obtain ⟨-, usage, -⟩ := run_untouched ["rdelta", "patch", "b", "d"] machine
  obtain ⟨-, -, whole, -⟩ := run_untouched ["rdelta", "patch", "b", "d", "-"] machine
  obtain ⟨-, -, -, written⟩ := run_untouched ["rdelta", "patch", "b", "d", "o"] machine
  have stopped : serveWords ["rdelta", "patch", "b", "b", "b"] machine =
      .error (.deltaFormat "b" (.io .shortRead)) machine := by cbv
  have truncated : (run ["rdelta", "patch", "b", "b", "b"] machine).status = 12 := by
    rw [run_of_error stopped]
    rfl
  have missing : (run ["rdelta", "patch", "b", "d"] machine).status = 1 := by cbv
  have filled : (run ["rdelta", "patch", "b", "d", "-"] machine).status = 0 := by cbv
  have created : (run ["rdelta", "patch", "b", "d", "o"] machine).status = 0 := by cbv
  have sound : machine.files.Sound :=
    ((FileTree.sound_ofWorking []).addFile ["b"] (by decide)).addFile ["d"] (by decide)
  have holds : (run ["rdelta", "patch", "b", "d", "o"] machine).machine.files.Holds "o" ⟨#[7]⟩ := by
    obtain ⟨request, bytes, asked, writes, holds⟩ := written created sound
    have words : Request.ofWords ["patch", "b", "d", "o"] =
        .ok (.command (.patch "b" "d" (.fresh (.file "o"))) (Verbosity.ofLevel 0)) := by cbv
    cases words.symm.trans asked
    obtain ⟨read, decoded, rest, held, understood, applied⟩ := writes
    obtain rfl : read = stream := held.eq_of_holds ⟨1, by cbv, rfl⟩
    have literal : Delta.decode (Bytes.ofArray stream) =
        .ok (⟨⟨[.literal 0 [7]], 1, 0⟩, 1⟩, []) := by cbv
    cases literal.symm.trans understood
    have target : Script.applyTo ⟨[.literal 0 [7]], 1, 0⟩ (files.bytesAt "b") = some ⟨#[7]⟩ := by
      cbv
    have same : ⟨#[7]⟩ = Bytes.toArray bytes := Option.some.inj (target.symm.trans applied)
    rw [same]
    exact holds
  exact ⟨truncated, format (.inr truncated), missing, usage (.inl missing), filled, whole filled,
    created, sound, holds⟩

end CommandLine

end BlockDelta
