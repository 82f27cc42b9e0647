/-!
# Texts of the program about itself
-/

namespace BlockDelta.CommandLine

/-- The name of the program and its version. -/
def versionLine : String := "rdelta 0.6.1\n"

/-- What the program is, its commands and its options. -/
def helpText : String :=
  versionLine ++
  "rsync-style binary deltas between two versions of a file.\n" ++
  "\n" ++
  "Usage: rdelta [-v]... [--debug=FLAG[N]]... COMMAND [OPTIONS] OPERANDS\n" ++
  "\n" ++
  "Commands:\n" ++
  "  signature BASIS SIGNATURE       Write the block signature of BASIS.\n" ++
  "      -B, --block-size=SIZE       Block length (derived from BASIS when omitted).\n" ++
  "          --checksum=ALGORITHM    Strong checksum: md4 (default), md5, sha1, xxh64.\n" ++
  "          --sum-length=BYTES      Truncate strong checksums to BYTES.\n" ++
  "          --checksum-seed=NUM     Seed mixed into strong checksums (0 disables).\n" ++
  "  delta SIGNATURE TARGET DELTA    Write the delta turning the basis into TARGET.\n" ++
  "          --max-literal=BYTES     Longest literal run emitted as one record.\n" ++
  "  patch BASIS DELTA OUTPUT        Rebuild the target into OUTPUT.\n" ++
  "  patch --inplace BASIS DELTA     Rewrite BASIS so it holds the target.\n" ++
  "\n" ++
  "Options:\n" ++
  "  -h, --help           Show this help message and exit.\n" ++
  "  -V, --version        Output version information and exit.\n" ++
  "  -v, --verbose        Increase verbosity; may be repeated.\n" ++
  "      --debug=FLAG[N]  Raise one subsystem (genr, delta, send, recv, io).\n" ++
  "\n" ++
  "An output operand of '-' writes to standard output. RDELTA_LOG overrides\n" ++
  "the log filter derived from -v and --debug.\n"

end BlockDelta.CommandLine
