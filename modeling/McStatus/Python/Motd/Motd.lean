import McStatus.Python.Motd.Impl
import McStatus.Python.Motd.Simplify
import McStatus.Python.Motd.Transformers

/-!
This module contains the class `Motd` of `mcstatus/motd/_motd.py`.
-/

namespace McStatus

namespace Python

structure Motd where
  parsed : List ParsedMotdComponent
  raw : Json
  bedrock : Bool

namespace Motd

def parseRaw (raw : Json) (bedrock : Bool) : Except Exception (List ParsedMotdComponent) :=
  match raw with
  | .list items => parseAsDict [("extra".toList, .list items)] bedrock []
  | .str s => .ok (parseAsStr s bedrock)
  | .dict fields => parseAsDict fields bedrock []
  | _ => .error .typeError

def parse (raw : Json) (bedrock : Bool) : Except Exception Motd := do
  return { parsed := ← parseRaw raw bedrock, raw := raw, bedrock := bedrock }

def simplified (setIter : SetIter) (motd : Motd) : Except Exception Motd := do
  return { motd with parsed := ← simplify setIter motd.parsed }

def toHtml (motd : Motd) : Except Exception (List Char) :=
  (htmlTransformer motd.bedrock).transform motd.parsed

def toAnsi (motd : Motd) : Except Exception (List Char) :=
  (ansiTransformer motd.bedrock).transform motd.parsed

end Motd

end Python

end McStatus
