import AnnotationReport.Json.Token

/-! # JSON documents

A document is the tree that a JSON text writes: strings and numerals as they are spelled, members in
the order of the text, repeated keys included. Reading goes through the tokens one by one and keeps
the containers that are open, so a text may nest as deep as it likes; `tokens` writes a tree down
again, and a list of tokens is read exactly when it is what `tokens` writes.
-/
namespace AnnotationReport.Json

abbrev Key := List StringPart

inductive Document where
  | null
  | bool (b : Bool)
  | number (n : Numeral)
  | string (parts : List StringPart)
  | array (items : List Document)
  | object (members : List (Key × Document))

namespace Document

/-- A container that is open, the latest entries first; in an object, the value of `key` is due. -/
inductive Frame where
  | array (items : List Document)
  | object (members : List (Key × Document)) (key : Key)

/-- What may come next, inside the open containers. -/
inductive Reader where
  | value (frames : List Frame)
  | firstItem (frames : List Frame)
  | firstKey (frames : List Frame)
  | nextKey (members : List (Key × Document)) (frames : List Frame)
  | colon (members : List (Key × Document)) (key : Key) (frames : List Frame)
  | afterItem (items : List Document) (frames : List Frame)
  | afterMember (members : List (Key × Document)) (frames : List Frame)
  | whole (d : Document)

namespace Reader

/-- A value is complete and takes its place in the innermost container. -/
def complete : List Frame → Document → Reader
  | [], d => whole d
  | .array items :: fs, d => afterItem (d :: items) fs
  | .object members key :: fs, d => afterMember ((key, d) :: members) fs

def begin (fs : List Frame) : Token → Option Reader
  | .null => some (complete fs .null)
  | .bool b => some (complete fs (.bool b))
  | .number n => some (complete fs (.number n))
  | .string ps => some (complete fs (.string ps))
  | .arrayStart => some (firstItem fs)
  | .objectStart => some (firstKey fs)
  | _ => none

def step : Reader → Token → Option Reader
  | value fs, t => begin fs t
  | firstItem fs, .arrayEnd => some (complete fs (.array []))
  | firstItem fs, t => begin (.array [] :: fs) t
  | afterItem items fs, .comma => some (value (.array items :: fs))
  | afterItem items fs, .arrayEnd => some (complete fs (.array items.reverse))
  | firstKey fs, .objectEnd => some (complete fs (.object []))
  | firstKey fs, .string k => some (colon [] k fs)
  | nextKey members fs, .string k => some (colon members k fs)
  | colon members k fs, .colon => some (value (.object members k :: fs))
  | afterMember members fs, .comma => some (nextKey members fs)
  | afterMember members fs, .objectEnd => some (complete fs (.object members.reverse))
  | _, _ => none

def run (s : Reader) : List Token → Option Reader
  | [] => some s
  | t :: r => (s.step t).bind (run · r)

def whole? : Reader → Option Document
  | whole d => some d
  | _ => none

end Reader

def ofTokens? (ts : List Token) : Option Document :=
  ((Reader.value []).run ts).bind Reader.whole?

def read? (bytes : List UInt8) : Option Document := (tokens? bytes).bind ofTokens?

mutual

def tokens : Document → List Token
  | null => [.null]
  | bool b => [.bool b]
  | number n => [.number n]
  | string ps => [.string ps]
  | array items => .arrayStart :: itemTokens items ++ [.arrayEnd]
  | object members => .objectStart :: memberTokens members ++ [.objectEnd]

def itemTokens : List Document → List Token
  | [] => []
  | [d] => tokens d
  | d :: e :: r => tokens d ++ .comma :: itemTokens (e :: r)

def memberTokens : List (Key × Document) → List Token
  | [] => []
  | [m] => memberToken m
  | m :: n :: r => memberToken m ++ .comma :: memberTokens (n :: r)

def memberToken : Key × Document → List Token
  | (k, d) => .string k :: .colon :: tokens d

end

end Document
end AnnotationReport.Json
