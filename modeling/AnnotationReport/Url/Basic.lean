import AnnotationReport.Url.Host
import AnnotationReport.Url.Path

/-! # URLs

A URL has a scheme, perhaps an authority, a path of segments or a text in its place, and perhaps a
query and a fragment. All parts are kept encoded, as they are written. Only a URL with a path of
segments can have further segments added to it.
-/
namespace AnnotationReport
namespace Url

/-- Schemes of the web always have a host and take a backslash for a slash; so do files, but for
the host. -/
inductive SchemeKind where
  | web
  | file
  | other
deriving DecidableEq, Repr

def webSchemes : List (List Char × Nat) :=
  [("http".toList, 80), ("https".toList, 443), ("ws".toList, 80), ("wss".toList, 443),
    ("ftp".toList, 21)]

def defaultPort? (scheme : List Char) : Option Nat := webSchemes.lookup scheme

def schemeKind (scheme : List Char) : SchemeKind :=
  if scheme = "file".toList then .file
  else if (defaultPort? scheme).isSome then .web
  else .other

/-- A user name and, if there is one, a password that is not empty. -/
structure Credentials where
  user : List Char
  password : Option (List Char)
deriving DecidableEq, Repr

def Credentials.nobody : Credentials := ⟨[], none⟩

def Credentials.text (c : Credentials) : List Char :=
  if c = nobody then []
  else c.user ++ (c.password.elim [] (':' :: ·)) ++ ['@']

structure Authority where
  credentials : Credentials
  host : Option Host
  port : Option Nat
deriving DecidableEq, Repr

def Authority.text (a : Authority) : List Char :=
  a.credentials.text ++ a.host.elim [] Host.text
    ++ a.port.elim [] fun p => ':' :: Text.decimal p

end Url

/-- With `guarded`, a dot segment stands before the path, so that the two slashes the path starts
with do not read as the start of an authority. -/
structure Url where
  scheme : List Char
  authority : Option Url.Authority
  guarded : Bool
  path : Url.Path
  query : Option (List Char)
  fragment : Option (List Char)
deriving DecidableEq, Repr

namespace Url

def kind (url : Url) : SchemeKind := schemeKind url.scheme

def requestChars (url : Url) : List Char :=
  url.scheme ++ ':' :: (url.authority.elim [] fun a => '/' :: '/' :: a.text)
    ++ (if url.guarded then ['/', '.'] else []) ++ url.path.text
    ++ url.query.elim [] ('?' :: ·)

def chars (url : Url) : List Char := url.requestChars ++ url.fragment.elim [] ('#' :: ·)

def text (url : Url) : String := String.ofList url.chars

def credentials (url : Url) : Credentials :=
  url.authority.elim .nobody Authority.credentials

def host? (url : Url) : Option Host := url.authority.bind Authority.host

def port? (url : Url) : Option Nat := url.authority.bind Authority.port

def anonymous (url : Url) : Url :=
  { url with authority := url.authority.map fun a => { a with credentials := .nobody } }

/-- Whether segments can be added: the path does not stand for a text of its own. -/
def isBase (url : Url) : Bool :=
  match url.path with
  | .segments _ => true
  | .rootless _ => false

/-- What the text of a segment is written as where it is one segment and nothing else. -/
def encodeSegment (kind : SchemeKind) (s : List Char) : Path.Broken :=
  .ofText (if kind = .other then EncodeSet.segment else EncodeSet.specialSegment) s

/-- The URL with further segments under its path, a slash at the end of which is no segment. -/
def extend? (url : Url) (segments : List (List Char)) : Option Url :=
  match url.path with
  | .rootless _ => none
  | .segments list =>
    let added := segments.map (encodeSegment url.kind)
    let longer := added.foldl (Path.extend (url.kind = .file)) (Path.trim list)
    some { url with path := .segments longer }

end Url
end AnnotationReport
