import BlockDelta.CommandLine.Run
import BlockDelta.Proofs.Rebuild.Refused
import BlockDelta.Proofs.Transfer.Enlarging

/-!
# What a failing command leaves behind

Every command first checks all that can be checked, then opens its output, and
behind that only access to files can fail. So a run that ends for what was asked
or for a malformed stream has done nothing. A run that succeeds has not been cut
off either: with more room on standard output it would have done the same.
-/

namespace BlockDelta

namespace CommandLine

/-- A machine whose standard output has room for anything. -/
def Machine.enlarge (machine : Machine) : Machine :=
  { machine with output := machine.output.enlarge }

variable {α β : Type}

/-- A part of a command that looks at the machine and leaves it as it is. -/
structure Checks (action : Running α) : Prop where
  /-- It changes nothing, whether or not it fails. -/
  still : ∀ machine, (∃ value, action machine = .ok value machine) ∨
    ∃ failure, action machine = .error failure machine
  /-- Nothing depends on the room on standard output. -/
  enlarges : Enlarges Machine.enlarge action

/-- A part of a command that changes the machine and fails only for access to files. -/
structure Writes (action : Running α) : Prop where
  /-- It has no other failures. -/
  access : ∀ machine failure torn, action machine = .error failure torn →
    failure.status = Failure.accessStatus
  /-- Its success is not cut off by standard output. -/
  enlarges : Enlarges Machine.enlarge action

/-- A part of a command that changes nothing when it fails for another cause than access to
files. -/
structure Careful (action : Running α) : Prop where
  /-- Other failures leave the machine as it was. -/
  untouched : ∀ machine failure torn, action machine = .error failure torn →
    failure.status ≠ Failure.accessStatus → torn = machine
  /-- Its success is not cut off by standard output. -/
  enlarges : Enlarges Machine.enlarge action

/-- What only writes is careful. -/
theorem Writes.careful {action : Running α} (writes : Writes action) : Careful action :=
  ⟨fun machine failure torn failed other =>
    absurd (writes.access machine failure torn failed) other, writes.enlarges⟩

/-- Nothing is written. -/
theorem Writes.pure (value : α) : Writes (pure value) := by
  refine ⟨?_, .pure value⟩
  rintro machine failure torn ⟨⟩

/-- Checks in order are checks. -/
theorem Checks.bind {first : Running α} {next : α → Running β} (head : Checks first)
    (tail : ∀ value, Checks (next value)) : Checks (first >>= next) := by
  refine ⟨fun machine => ?_, head.enlarges.bind fun value => (tail value).enlarges⟩
  rcases head.still machine with ⟨value, done⟩ | ⟨failure, failed⟩
  · rw [bind_of_ok done]
    exact (tail value).still machine
  · exact .inr ⟨failure, bind_of_error failed⟩

/-- What is careful is so behind checks. -/
theorem Checks.careful {first : Running α} {next : α → Running β} (head : Checks first)
    (tail : ∀ value, Careful (next value)) : Careful (first >>= next) := by
  refine ⟨fun machine failure torn failed other => ?_,
    head.enlarges.bind fun value => (tail value).enlarges⟩
  rcases head.still machine with ⟨value, done⟩ | ⟨cause, stopped⟩
  · rw [bind_of_ok done] at failed
    exact (tail value).untouched machine failure torn failed other
  · rw [bind_of_error stopped] at failed
    cases failed
    rfl

/-- Writing in order fails only for access to files. -/
theorem Writes.bind {first : Running α} {next : α → Running β} (head : Writes first)
    (tail : ∀ value, Writes (next value)) : Writes (first >>= next) := by
  refine ⟨fun machine failure torn failed => ?_,
    head.enlarges.bind fun value => (tail value).enlarges⟩
  cases done : first machine with
  | ok value between =>
    rw [bind_of_ok done] at failed
    exact (tail value).access between failure torn failed
  | error cause between =>
    rw [bind_of_error done] at failed
    cases failed
    exact head.access machine _ _ done

/-- What is careful is so when its result is put aside. -/
theorem Careful.done {action : Running α} (careful : Careful action) :
    Careful (do let _ ← action) := by
  refine ⟨fun machine failure torn failed other => ?_,
    careful.enlarges.bind fun _ => .pure PUnit.unit⟩
  cases ran : action machine with
  | ok value between =>
    rw [bind_of_ok ran] at failed
    cases failed
  | error cause between =>
    rw [bind_of_error ran] at failed
    cases failed
    exact careful.untouched machine _ _ ran other

/-- What is read off the files does not depend on standard output. -/
theorem enlarges_get {next : Machine → Running α}
    (alike : ∀ machine, next machine.enlarge = next machine)
    (tail : ∀ machine, Enlarges Machine.enlarge (next machine)) :
    Enlarges Machine.enlarge (get >>= next) := by
  refine ⟨fun machine value after done => ?_⟩
  have begun (machine : Machine) : (get : Running Machine) machine = .ok machine machine := rfl
  rw [bind_of_ok (begun _)] at done ⊢
  rw [alike]
  exact (tail machine).onward machine value after done

/-- Checks may look at the files. -/
theorem Checks.get {next : Machine → Running α}
    (alike : ∀ machine, next machine.enlarge = next machine)
    (tail : ∀ machine, Checks (next machine)) : Checks (get >>= next) :=
  ⟨fun machine => (tail machine).still machine,
    enlarges_get alike fun machine => (tail machine).enlarges⟩

/-- What is careful may look at the files first. -/
theorem Careful.get {next : Machine → Running α}
    (alike : ∀ machine, next machine.enlarge = next machine)
    (tail : ∀ machine, Careful (next machine)) : Careful (get >>= next) :=
  ⟨fun machine => (tail machine).untouched machine,
    enlarges_get alike fun machine => (tail machine).enlarges⟩

/-- What writes may look at the files first. -/
theorem Writes.get {next : Machine → Running α}
    (alike : ∀ machine, next machine.enlarge = next machine)
    (tail : ∀ machine, Writes (next machine)) : Writes (get >>= next) :=
  ⟨fun machine => (tail machine).access machine,
    enlarges_get alike fun machine => (tail machine).enlarges⟩

/-- A result that touches nothing is a check. -/
theorem checks_settle {ε : Type} (wrap : ε → Failure) (result : Except ε α) :
    Checks (settle wrap result) := by
  cases result with
  | ok value =>
    refine ⟨fun machine => .inl ⟨value, rfl⟩, ⟨?_⟩⟩
    rintro machine _ _ ⟨⟩
    rfl
  | error error => exact ⟨fun machine => .inr ⟨wrap error, rfl⟩, ⟨nofun⟩⟩

/-- Looking for an existing file or directory is a check. -/
theorem checks_openNode (path : String) : Checks (openNode path) :=
  .get (fun _ => rfl) fun _ => checks_settle ..

/-- Decoding a file is a check. -/
theorem checks_decodeNode {ε : Type} (node : Node) (wrap : ε → Failure) (unreadable : Fault → ε)
    (decode : Bytes → Except ε (α × Bytes)) : Checks (decodeNode node wrap unreadable decode) := by
  refine .get (fun _ => rfl) fun machine => (checks_settle ..).bind fun content =>
    (checks_settle ..).bind fun (value, rest) => ⟨fun machine => .inl ⟨value, rfl⟩, .pure value⟩

/-- An output that cannot be opened is a matter of access to files. -/
theorem writes_openOutput (output : Output) : Writes (openOutput output) := by
  cases output with
  | standard => exact .pure _
  | file path =>
    refine .get (fun _ => rfl) fun machine => .bind ?_ fun (number, files) => ⟨nofun, ⟨?_⟩⟩
    · refine ⟨fun at' failure torn failed => ?_, (checks_settle ..).enlarges⟩
      cases made : machine.files.create path with
      | ok value =>
        rw [made] at failed
        cases failed
      | error fault =>
        rw [made] at failed
        cases failed
        rfl
    · rintro machine _ _ ⟨⟩
      rfl

section

variable {ε : Type} {wrap : ε → Failure} {writing : EStateM ε Sink α}

/-- What is written to standard output stays there. -/
theorem writeTo_standard_eq_ok_iff {machine left : Machine} {value : α} :
    writeTo .standard wrap writing machine = .ok value left ↔
      ∃ sink, writing machine.output = .ok value sink ∧ left = { machine with output := sink } := by
  unfold writeTo
  simp only []
  cases writing machine.output with
  | error error sink => exact ⟨nofun, nofun⟩
  | ok result sink =>
    constructor
    · rintro ⟨⟩
      exact ⟨sink, rfl, rfl⟩
    · rintro ⟨_, ⟨⟩, rfl⟩
      rfl

/-- What is written to an opened file becomes its content. -/
theorem writeTo_file_eq_ok_iff {machine left : Machine} {number : Nat} {value : α} :
    writeTo (.file number) wrap writing machine = .ok value left ↔
      ∃ sink, writing .unlimited = .ok value sink ∧
        left = { machine with files := machine.files.store number sink.accepted } := by
  unfold writeTo
  simp only []
  cases writing .unlimited with
  | error error sink => exact ⟨nofun, nofun⟩
  | ok result sink =>
    constructor
    · rintro ⟨⟩
      exact ⟨sink, rfl, rfl⟩
    · rintro ⟨_, ⟨⟩, rfl⟩
      rfl

/-- What can be written to an opened output is written where standard output has more room. -/
theorem writeTo_enlarges (opened : Opened) (enlarges : Enlarges Sink.enlarge writing) :
    Enlarges Machine.enlarge (writeTo opened wrap writing) := by
  refine ⟨fun machine value after done => ?_⟩
  cases opened with
  | standard =>
    obtain ⟨sink, written, rfl⟩ := writeTo_standard_eq_ok_iff.1 done
    have more : writing machine.enlarge.output = .ok value sink.enlarge :=
      enlarges.onward _ _ _ written
    exact writeTo_standard_eq_ok_iff.2 ⟨sink.enlarge, more, rfl⟩
  | file number =>
    obtain ⟨sink, written, rfl⟩ := writeTo_file_eq_ok_iff.1 done
    exact writeTo_file_eq_ok_iff.2 ⟨sink, written, rfl⟩

/-- What fails only for access to files does so on an opened output. -/
theorem writes_writeTo (opened : Opened)
    (access : ∀ sink error torn, writing sink = .error error torn →
      (wrap error).status = Failure.accessStatus)
    (enlarges : Enlarges Sink.enlarge writing) : Writes (writeTo opened wrap writing) := by
  refine ⟨fun machine failure torn failed => ?_, writeTo_enlarges opened enlarges⟩
  unfold writeTo at failed
  simp only [] at failed
  split at failed
  · cases failed
  · rename_i stopped
    cases failed
    exact access _ _ _ stopped

end

/-- There are three statuses of failing. -/
theorem Failure.status_cases (failure : Failure) :
    failure.status = 1 ∨ failure.status = 11 ∨ failure.status = 12 := by
  cases failure with
  | signature error => cases error <;> simp [status, usageStatus, accessStatus]
  | rebuilding error =>
    cases error <;> simp [status, rebuildStatus, usageStatus, accessStatus, formatStatus]
  | _ => simp [status, usageStatus, accessStatus, formatStatus]

/-- What is said is written. -/
theorem writes_say (text : String) : Writes (say text) := by
  refine writes_writeTo _ (fun sink error torn _ => rfl) ?_
  rw [Sink.write_eq_offer]
  exact Sink.offer_enlarges _

/-- A target that is not described cannot be read, matched or written. -/
theorem status_transferFailure {index : BlockIndex} {options : MatchOptions}
    {feed : Feeding DeltaWriter Unit} {sink torn : Sink} {error : Transfer.Error}
    (failed : Transfer.describeTarget index options feed sink = .error error torn)
    (target output : String) :
    (transferFailure target output error).status = Failure.accessStatus := by
  have blamed : (∃ fault, error = .writing fault) ∨ ∃ cause, error = .matching cause := by
    unfold Transfer.describeTarget at failed
    split at failed
    · cases failed
      exact .inl ⟨_, rfl⟩
    split at failed
    · cases failed
      exact .inr ⟨_, rfl⟩
    split at failed
    · cases failed
      exact .inr ⟨_, rfl⟩
    split at failed
    · cases failed
      exact .inl ⟨_, rfl⟩
    · cases failed
  rcases blamed with ⟨fault, rfl⟩ | ⟨cause, rfl⟩
  · rfl
  · cases cause <;> rfl

/-- The command that writes a signature is careful. -/
theorem careful_runSignature (basis : String) (output : Output) (options : Signature.Options) :
    Careful (runSignature basis output options) := by
  refine (checks_openNode basis).careful fun node => .get (fun _ => rfl) fun _ =>
    (checks_settle ..).careful fun generator => .get (fun _ => rfl) fun _ =>
    (checks_settle ..).careful fun content => (checks_settle ..).careful fun signature => ?_
  exact ((writes_openOutput output).bind fun opened =>
    writes_writeTo opened (fun _ _ _ _ => rfl) signature.write_enlarges).careful

/-- The command that writes a delta is careful. -/
theorem careful_runDelta (signature target : String) (output : Output) (options : MatchOptions) :
    Careful (runDelta signature target output options) := by
  refine (checks_openNode signature).careful fun node =>
    (checks_decodeNode ..).careful fun decoded => (checks_openNode target).careful fun node => ?_
  have described (opened : Opened) (reader : Reader) :
      Writes (writeTo opened (transferFailure target output.name)
        (Transfer.describeTarget (.ofSignature decoded) options
          (do let _ ← Session.consume reader))) :=
    writes_writeTo opened (fun _ _ _ failed => status_transferFailure failed ..)
      (Transfer.describeTarget_enlarges decoded options reader)
  exact ((writes_openOutput output).bind fun opened => .get (fun _ => rfl) fun machine =>
    (described opened (readerOf machine.files node)).bind fun _ => .pure PUnit.unit).careful

/-- A refusal that is no matter of access to files is a check of the rebuild. -/
theorem isRefusal_of_status {error : Rebuild.Error}
    (other : (Failure.rebuilding error).status ≠ Failure.accessStatus) : error.IsRefusal := by
  cases error with
  | io fault => exact absurd rfl other
  | _ => trivial

/-- A rebuild among files is careful when its refusals leave them as they were. -/
theorem careful_onFiles {action : Rebuild.Filing α}
    (untouched : ∀ tree error torn, action tree = .error error torn → error.IsRefusal →
      torn = tree) : Careful (onFiles action) := by
  constructor
  · intro machine failure torn failed other
    unfold onFiles at failed
    split at failed
    · cases failed
    · rename_i stopped
      cases failed
      rw [untouched _ _ _ stopped (isRefusal_of_status other)]
  · refine ⟨fun machine value after done => ?_⟩
    unfold onFiles at done ⊢
    split at done
    · rename_i ran
      cases done
      simp only [Machine.enlarge, ran]
    · cases done

/-- The command that rebuilds a target is careful. -/
theorem careful_runPatch (basis delta : String) (destination : Destination) :
    Careful (runPatch basis delta destination) := by
  refine (checks_openNode delta).careful fun node =>
    (checks_decodeNode ..).careful fun decoded => ?_
  match destination with
  | .inPlace =>
    exact (careful_onFiles fun tree error torn => Rebuild.fileInPlace_untouched).done
  | .fresh (.file path) =>
    exact (careful_onFiles fun tree error torn failed refusal =>
      Rebuild.toFile_untouched failed (.inl refusal)).done
  | .fresh .standard =>
    refine (checks_openNode basis).careful fun node => .get (fun _ => rfl) fun machine => ?_
    refine Careful.done ⟨fun machine failure torn failed other => ?_,
      writeTo_enlarges _ (Rebuild.toSink_enlarges ..)⟩
    unfold writeTo at failed
    simp only [] at failed
    split at failed
    · cases failed
    · rename_i stopped
      cases failed
      rw [Rebuild.toSink_untouched stopped (isRefusal_of_status other)]

/-- Serving a request is careful. -/
theorem careful_serve (request : Request) : Careful (serve request) := by
  match request with
  | .help => exact (writes_say _).careful
  | .version => exact (writes_say _).careful
  | .command (.signature ..) _ => exact careful_runSignature ..
  | .command (.delta ..) _ => exact careful_runDelta ..
  | .command (.patch ..) _ => exact careful_runPatch ..

/-- The words of a command line are understood and served. -/
def serveWords (arguments : List String) : Running Unit := do
  serve (← settle .usage (Request.ofWords arguments.tail))

/-- Serving the words of a command line is careful. -/
theorem careful_serveWords (arguments : List String) : Careful (serveWords arguments) :=
  (checks_settle .usage (Request.ofWords arguments.tail)).careful careful_serve

section

variable {arguments : List String} {machine left : Machine}

/-- A command line that is served has status 0 and nothing to complain about. -/
theorem run_of_ok (served : serveWords arguments machine = .ok () left) :
    run arguments machine = ⟨0, "", left⟩ := by
  unfold serveWords at served
  simp only [run]
  rw [served]

/-- A command line that is not served has the status of its failure. -/
theorem run_of_error {failure : Failure}
    (failed : serveWords arguments machine = .error failure left) :
    run arguments machine = ⟨failure.status, failure.report, left⟩ := by
  unfold serveWords at failed
  simp only [run]
  rw [failed]

end

end CommandLine

end BlockDelta
