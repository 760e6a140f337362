import McStatus.Rust.Motd.Impl
import McStatus.Rust.Motd.Simplify
import McStatus.Rust.Motd.Transform

/-!
This module contains the struct `Motd` of `src/motd/motd_impl.rs`.
-/

namespace McStatus

namespace Rust

inductive MotdRaw where
  | string (raw : List Char)
  | json (raw : Value)

structure Motd where
  parsed : ComponentList
  raw : MotdRaw
  bedrock : Bool

namespace Motd

def fromString (raw : List Char) (bedrock : Bool) : Motd where
  parsed := parseLegacyString raw
  raw := .string raw
  bedrock := bedrock

def fromJson (raw : Value) (bedrock : Bool) : Exec Motd := do
  return { parsed := ← parseJsonComponent raw, raw := .json raw, bedrock := bedrock }

def simplify (motd : Motd) : Motd :=
  { motd with parsed := Rust.simplify motd.parsed }

def toPlain (motd : Motd) : List Char :=
  Rust.toPlain motd.parsed

def toMinecraft (motd : Motd) : List Char :=
  Rust.toMinecraft motd.parsed

def toHtml (motd : Motd) : List Char :=
  Rust.toHtml motd.parsed

def toAnsi (motd : Motd) : List Char :=
  Rust.toAnsi motd.parsed

end Motd

end Rust

end McStatus
