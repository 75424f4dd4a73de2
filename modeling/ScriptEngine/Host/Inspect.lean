import ScriptEngine.Host.Session
/-!
Everything the engine can say about a single value: its texts, truth, kind and the
conversions, and, given a second value, whether the two would share a literal entry.
-/
namespace ScriptEngine

structure ValueReport where
  display : String
  literal : String
  truth : Option Bool
  kind : Kind
  isNull : Bool
  asInt : Option Int
  asNumber : Option String
  asStr : Option String
  debug : String
  sameLiteral : Option Bool
  deriving DecidableEq, Repr

namespace Session

def inspect (s : Session) (l : Literal) (other : Option Literal) : ValueReport :=
  let (s, v) := s.resolve l
  let (s, w) := match other with
    | some o => let (s, w) := s.resolve o; (s, some w)
    | none => (s, none)
  let n := s.machine.names
  { display := v.display n
    literal := v.literalText n
    truth := v.truth
    kind := v.kind
    isNull := v.isEmpty
    asInt := v.asInt.map Int32.toInt
    asNumber := v.asNumber.map Decimal.text
    asStr := v.asStr
    debug := v.debugText n
    sameLiteral := w.map v.sameLiteral }

end Session

end ScriptEngine
