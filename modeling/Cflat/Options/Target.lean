import Cflat.Options.Basic

/-!
# Host targets

The code is always i386 code.  What differs between hosts is whether the
assembler and the linker have to be asked for 32-bit objects.
-/

namespace Cflat.Options

/-- Whether a host is a 64-bit one; nothing for an unknown host. -/
def is64? (host : String) : Option Bool :=
  if host ∈ ["amd64_sysv", "amd64_apple", "arm64", "arm64_apple", "rv64"] then some true
  else if host ∈ ["arm", "rv32", "i386"] then some false
  else none

/-- What is said about a host, which is something for an unknown one only. -/
def hostComplaint (host : String) : String :=
  if (is64? host).isSome then ""
  else "cbc: warning: unrecognized host target '" ++ host ++ "', assuming a 64-bit toolchain\n"

/-- Record the host that the tools run on, and give what is said about it.  The host has a
name, or the one that `defaultHost` gives to its operating system and architecture.  An
unknown host is taken for a 64-bit one. -/
def setTarget (defaultHost : String → String → String) (o : Options) (os arch name : String) :
    Options × String :=
  let host := if name = "" then defaultHost os arch else name
  ({ o with os, arch, host, m32 := (is64? host).getD true }, hostComplaint host)

/-- The host names of a backend that generates code for each of these systems. -/
def hostOfSystem (os arch : String) : String :=
  match os, arch with
  | "darwin", "amd64" => "amd64_apple"
  | "darwin", "arm64" => "arm64_apple"
  | "freebsd", "arm64" => "arm64"
  | "linux", "arm64" => "arm64"
  | "linux", "riscv64" => "rv64"
  | _, _ => "amd64_sysv"

end Cflat.Options
